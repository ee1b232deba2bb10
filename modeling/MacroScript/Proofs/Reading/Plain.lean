import MacroScript.Proofs.Hygiene.Progress
import MacroScript.Proofs.Reading.Composed

/-!
# Reading where no macro is declared

A parser that knows macros does what a parser of the plain language does, as long as no
macro is in sight: the tokens declare none, and the open scopes, all of which are new,
have no entry for one.  Both come to the same value or to the same fault, and to the same
position.

What the parser with macros does beside that is seen in its scopes only.  If it has not
added a macro in the end, its tree has no macro nodes.
-/

namespace MacroScript

namespace Cursor

/-- No position of the cursor is at the declaration of a macro. -/
def DeclaresNoMacro (cursor : Cursor) : Prop :=
  ∀ index, (cursor.tokenAt index).isWord "macro" = true →
    (cursor.tokenAt (index + 1)).isName = false

theorem Forward.declaresNoMacro {before after : Cursor} (forward : before.Forward after)
    (none : before.DeclaresNoMacro) : after.DeclaresNoMacro := by
  intro index isMacro
  rw [forward.tokenAt] at isMacro ⊢
  exact none index isMacro

end Cursor

namespace Grammar

variable {parser : Parser α} {reader after : Reader} {places : List Place}

/-! ## Contexts without macros -/

/-- A context outside of expansions whose scopes have no macros. -/
structure Context.Bare (macros : Registry) (context : Context) : Prop where
  hygiene : context.hygiene = none
  macros : context.session.macros = macros
  scopes {id : ScopeId} (mem : id ∈ context.scopes) {scope : Scope}
    (found : context.session.scopes.get? id = some scope) : scope.macros = []

namespace Context.Bare

variable {macros : Registry} {context : Context}
variable (bare : context.Bare macros)
include bare

theorem findMacro? (index : Nat) (name : String) : context.findMacro? index name = .ok none := by
  have unseen : context.session.scopes.findMacro? context.scopes name = none := by
    apply List.findSome?_eq_none_iff.mpr
    intro id mem
    cases found : context.session.scopes.get? id with
    | none => rfl
    | some scope => simp [bare.scopes mem found]
  simp only [Context.findMacro?, bare.hygiene, unseen]

theorem mark (name : String) (color : Option Color) :
    (context.mark context.scopes name color).Bare macros := by
  cases stack : context.scopes with
  | nil => exact bare
  | cons innermost outer =>
    refine ⟨bare.hygiene, bare.macros, ?_⟩
    intro id mem scope found
    change id ∈ context.scopes at mem
    change (context.session.scopes.markColor innermost name color).get? id = some scope at found
    obtain ⟨former, formerFound, rfl | ⟨-, rfl⟩⟩ := ScopeStore.known_of_modify found
    · exact bare.scopes mem formerFound
    · have kept : former.macros = [] := bare.scopes mem formerFound
      exact kept

theorem enterScope : context.enterScope.Bare macros := by
  refine ⟨bare.hygiene, bare.macros, ?_⟩
  intro id mem scope found
  change id ∈ context.session.scopes.size :: context.scopes at mem
  change context.session.scopes.alloc.get? id = some scope at found
  rcases ScopeStore.known_of_alloc found with old | ⟨-, rfl⟩
  · rcases List.mem_cons.mp mem with rfl | outer
    · exact absurd (ScopeStore.lt_of_get?_eq_some old) (Nat.lt_irrefl _)
    · exact bare.scopes outer old
  · rfl

theorem exitScope : context.exitScope.Bare macros := by
  unfold Context.exitScope
  split
  · rename_i innermost outer rest stack
    refine ⟨bare.hygiene, bare.macros, ?_⟩
    intro id mem scope found
    apply bare.scopes _ found
    rw [stack]
    exact List.mem_cons_of_mem innermost mem
  · exact bare

end Context.Bare

/-! ## The two parsers -/

variable {α : Type} {macros : Registry}

/-- The outcome of a plain parser and that of a parser with macros: both are at the same place,
with the same value or the same fault, and the context still has no macros. -/
inductive Agree (macros : Registry) (cursor : Cursor) :
    EStateM.Result Fault State α → EStateM.Result Fault State α → Prop
  | ok {value : α} {next : Cursor} {context : Context} (forward : cursor.Forward next)
      (bare : context.Bare macros) :
      Agree macros cursor (.ok value ⟨next, none⟩) (.ok value ⟨next, some context⟩)
  | error {fault : Fault} {next : Cursor} {context : Context} (forward : cursor.Forward next)
      (bare : context.Bare macros) :
      Agree macros cursor (.error fault ⟨next, none⟩) (.error fault ⟨next, some context⟩)

/-- A parser that does the same with and without macros, where none is in sight. -/
def Agrees (macros : Registry) (parser : Parser α) : Prop :=
  ∀ (cursor : Cursor) (context : Context), cursor.Ready → cursor.DeclaresNoMacro →
    context.Bare macros →
      Agree macros cursor (parser ⟨cursor, none⟩) (parser ⟨cursor, some context⟩)

theorem agrees_of_tracks {r : Renumbering} {first second : Parser α} {map : α → α}
    (tracks : r.Tracks first second map) : Agrees macros first := by
  obtain ⟨act, rfl, moves, -⟩ := tracks
  intro cursor context ready _ bare
  have moved := moves cursor ready
  unfold onCursor
  cases run : act cursor with
  | ok value next =>
    rw [run] at moved
    exact .ok moved.toForward bare
  | error fault next =>
    rw [run] at moved
    exact .error moved.1.toForward bare

/-! ### Names -/

theorem agrees_bindingName : Agrees macros bindingName := by
  intro cursor context ready _ bare
  rw [bindingName_eq, bindingName_eq]
  by_cases isName : cursor.peek.isName = true
  · have unmarked : (context.mark context.scopes cursor.peek.text none).hygiene = none := by
      rw [Context.mark_hygiene, bare.hygiene]
    have marked : declareName cursor.peek.identifier cursor.index
        (Reader.mk cursor.advance context).state =
          .ok cursor.peek.identifier
            ⟨cursor.advance, some (context.mark context.scopes cursor.peek.text none)⟩ := by
      simp only [declareName_state, Context.bindName_of_plain bare.hygiene, Token.identifier,
        Context.tokenColor_of_plain unmarked]
      rfl
    rw [if_pos isName, if_pos isName]
    exact marked ▸ .ok ready.forward_advance (bare.mark _ _)
  · rw [if_neg isName, if_neg isName]
    exact .error (.refl ready) bare

theorem agrees_referenceName : Agrees macros referenceName := by
  intro cursor context ready _ bare
  rw [referenceName_eq, referenceName_eq]
  by_cases isName : cursor.peek.isName = true
  · have resolved : resolveName cursor.peek.identifier cursor.index
        (Reader.mk cursor.advance context).state =
          .ok cursor.peek.identifier ⟨cursor.advance, some context⟩ := by
      simp only [resolveName_state, Context.tokenColor_of_plain bare.hygiene]
      rfl
    rw [if_pos isName, if_pos isName]
    exact resolved ▸ .ok ready.forward_advance bare
  · rw [if_neg isName, if_neg isName]
    exact .error (.refl ready) bare

/-! ### Ways to put parsers together -/

theorem Agrees.bind {β : Type} {parser : Parser α} {next : α → Parser β}
    (first : Agrees macros parser) (second : ∀ value, Agrees macros (next value)) :
    Agrees macros (parser >>= next) := by
  intro cursor context ready none bare
  have firstRun := first cursor context ready none bare
  simp only [Bind.bind, EStateM.bind]
  generalize parser ⟨cursor, Option.none⟩ = plain at firstRun
  generalize parser ⟨cursor, some context⟩ = knowing at firstRun
  cases firstRun with
  | error forward bare => exact .error forward bare
  | @ok value middle after forward bare =>
    have secondRun := second value middle after (forward.ready ready)
      (forward.declaresNoMacro none) bare
    simp only
    generalize next value ⟨middle, Option.none⟩ = plain at secondRun
    generalize next value ⟨middle, some after⟩ = knowing at secondRun
    cases secondRun with
    | error later bare => exact .error (forward.trans later) bare
    | ok later bare => exact .ok (forward.trans later) bare

theorem Agrees.inScope (agrees : Agrees macros parser) : Agrees macros (inScope parser) := by
  intro cursor context ready none bare
  have run := agrees cursor context.enterScope ready none bare.enterScope
  simp only [Grammar.inScope, Grammar.followedBy, Option.map_none, Option.map_some]
  generalize parser ⟨cursor, Option.none⟩ = plain at run
  generalize parser ⟨cursor, some context.enterScope⟩ = knowing at run
  cases run with
  | error forward bare => exact .error forward bare.exitScope
  | ok forward bare => exact .ok forward bare.exitScope

theorem Agrees.followedBy (agrees : Agrees macros parser) (allowed : Bool) :
    Agrees macros
      (followedBy parser fun state =>
        { state with cursor := { state.cursor with allowIn := allowed } }) := by
  intro cursor context ready none bare
  have run := agrees cursor context ready none bare
  simp only [Grammar.followedBy]
  generalize parser ⟨cursor, Option.none⟩ = plain at run
  generalize parser ⟨cursor, some context⟩ = knowing at run
  cases run with
  | error forward bare =>
    exact .error ⟨forward.tokens, forward.finish, forward.index, forward.inside⟩ bare
  | ok forward bare =>
    exact .ok ⟨forward.tokens, forward.finish, forward.index, forward.inside⟩ bare

theorem Agrees.withIn (agrees : Agrees macros parser) (within lasts : Bool) :
    Agrees macros (withIn within lasts parser) := by
  have set : Agrees macros (setAllowIn within) := fun _ _ ready _ bare =>
    .ok ⟨rfl, rfl, Nat.le_refl _, ready.inside⟩ bare
  exact (agrees_of_tracks (tracks_inAllowed (r := {}))).bind fun former =>
    set.bind fun _ => agrees.followedBy (lasts || former)

/-- A name that calls no visible macro is a reference. -/
theorem nameExpression_of_unseen {state : State}
    (unseen : ∀ context ∈ state.context,
      context.findMacro? state.cursor.index state.cursor.peek.text = .ok none) :
    nameExpression state = (do return Expr.identifier (← referenceName) : Parser Expr) state := by
  rcases state with ⟨cursor, context⟩
  simp only [nameExpression, Bind.bind, EStateM.bind, index, peek, peekAt]
  by_cases callable : (cursor.peek.isName && (cursor.peekAt 1).isPunct "(") = true
  · cases context with
    | none => simp only [callable, if_true, EStateM.bind, withContext]
    | some context =>
      have found : context.findMacro? cursor.index cursor.peek.text = .ok none :=
        unseen context rfl
      simp only [callable, if_true, EStateM.bind, withContext, found]
  · simp only [callable]
    rfl

theorem agrees_nameExpression : Agrees macros nameExpression := by
  intro cursor context ready none bare
  have reference : Agrees macros (do return Expr.identifier (← referenceName)) :=
    agrees_referenceName.bind fun identifier _ _ ready _ bare => .ok (.refl ready) bare
  rw [nameExpression_of_unseen, nameExpression_of_unseen]
  · exact reference cursor context ready none bare
  · intro other same
    cases same
    exact bare.findMacro? _ _
  · simp

theorem agrees_declaration {otherwise : Parser Stmt} (agrees : Agrees macros otherwise) :
    Agrees macros (do if ← atMacroDeclaration then macroDeclaration else otherwise) := by
  intro cursor context ready none bare
  have undeclared : (cursor.peek.isWord "macro" && (cursor.peekAt 1).isName) = false := by
    rw [Bool.and_eq_false_imp]
    exact none cursor.index
  simp only [Bind.bind, EStateM.bind, atMacroDeclaration, Option.isSome_none, Option.isSome_some,
    Bool.false_and, Bool.true_and, undeclared]
  exact agrees cursor context ready none bare

/-- Whatever is put together from the pieces of the grammar does the same with and without
macros. -/
theorem agrees_of_composed {r : Renumbering} {condition : Cursor → Prop} {prior : List Mark}
    {first second : Parser α} {map : α → α} {view : α → List Mark}
    (composed : r.ComposedWhere condition prior first second map view) : Agrees macros first := by
  induction composed with
  | tracks tracks => exact agrees_of_tracks tracks
  | literal kind written inside => exact agrees_of_tracks (r.tracks_literalOf kind)
  | bindingName => exact agrees_bindingName
  | referenceName uncalled => exact agrees_referenceName
  | nameExpression => exact agrees_nameExpression
  | declaration plain ih => exact agrees_declaration ih
  | bind one later ihOne ihLater => exact ihOne.bind ihLater
  | choose choice chosen each ih =>
    intro cursor context ready none bare
    rw [chosen, chosen]
    exact ih cursor cursor context ready none bare
  | anywhere inner ih => exact ih
  | inScope inner ih => exact ih.inScope
  | withIn within lasts restored inner ih => exact ih.withIn within lasts
  | beyond near begins => cases near
  | frame inner ih
  | reviewed inner seen ih => exact ih

/-! ## Trees without macro nodes -/

/-- A step that adds no macro produces no macro node, if no macro is in sight. -/
theorem Step.macroFree (step : Step reader places after) (bare : reader.context.Bare macros)
    (kept : after.context.session.macros.size ≤ macros.size) :
    (∀ place ∈ places, place.2.isMacro = false) ∧ after.context.Bare macros := by
  cases step with
  | move forward => exact ⟨by simp, bare⟩
  | binding isName binds colored =>
    rw [Context.bindName_of_plain bare.hygiene, Except.ok.injEq] at binds
    subst binds
    exact ⟨by simp [Leaf.isMacro], bare.mark _ _⟩
  | reference isName colored => exact ⟨by simp [Leaf.isMacro], bare⟩
  | call isName found taken fixed forward behind =>
    rw [bare.findMacro?] at found
    cases found
  | @declaration cursor next context name rules forward inside templates written =>
    have added : context.session.macros.size + 1 ≤ macros.size := by
      rw [← Context.mark_macros context context.scopes name.name none, ← Registry.size_add]
      exact kept
    rw [bare.macros] at added
    exact absurd added (Nat.not_succ_le_self _)
  | abandoned forward => exact ⟨by simp, bare.mark _ _⟩

/-- A walk that adds no macro produces no macro nodes, if no macro is in sight. -/
theorem Walk.macroFree (walk : Walk reader places after) (nonempty : reader.context.scopes ≠ [])
    (bare : reader.context.Bare macros) (kept : after.context.session.macros.size ≤ macros.size) :
    (∀ place ∈ places, place.2.isMacro = false) ∧ after.context.Bare macros := by
  induction walk with
  | nil reader => exact ⟨by simp, bare⟩
  | step step => exact step.macroFree bare kept
  | append one two first second =>
    have oneAdvances := one.advances nonempty
    have middleNonempty := oneAdvances.scopes ▸ nonempty
    have grows := (two.advances middleNonempty).grows
    obtain ⟨firstFree, middleBare⟩ :=
      first nonempty bare (Nat.le_trans grows.macros_size_le kept)
    obtain ⟨secondFree, afterBare⟩ := second middleNonempty middleBare kept
    refine ⟨?_, afterBare⟩
    intro place mem
    rcases List.mem_append.mp mem with early | late
    · exact firstFree place early
    · exact secondFree place late
  | @enclosed reader after places inner ih =>
    rw [Reader.exit, Context.exitScope_session] at kept
    obtain ⟨free, innerBare⟩ := ih (List.cons_ne_nil _ _) bare.enterScope kept
    exact ⟨free, innerBare.exitScope⟩

end Grammar

end MacroScript
