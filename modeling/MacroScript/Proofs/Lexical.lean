import MacroScript.Proofs.Hygiene.Source
import MacroScript.Proofs.OpenScopes
import MacroScript.Proofs.Tandem.Parser
import MacroScript.Proofs.Tandem.Session
import Mathlib.Data.List.Forall2

/-!
# Macros are resolved lexically

The parser finds out what a name calls by looking through a store of scopes, which it
changes as it goes on.  What it finds is what the text says: a name that is followed by an
opening parenthesis is a macro call exactly if a macro of that name was declared before it
in a scope that is still open, and then it calls the latest one in the innermost such scope.

The parser is run in tandem with itself here.  What is kept is that the scopes of the parser
hold the macros of the open scopes, and that every name so far was resolved as it should be.
-/

namespace MacroScript

open MacroScript.Grammar MacroScript.Outcome

/-! ## Names that are followed by a parenthesis -/

/-- A name is the one that is written at an index of the tokens. -/
def WrittenAt (tokens : List Token) (index : Nat) (name : Identifier) : Prop :=
  ∃ token, tokens[index]? = some token ∧ token.isName = true ∧ token.identifier = name

/-- What stands at an index of the tokens is followed by an opening parenthesis. -/
def CalledAt (tokens : List Token) (index : Nat) : Prop :=
  ∃ opening, tokens[index + 1]? = some opening ∧ opening.isPunct "(" = true

variable {tokens : List Token}

theorem Cursor.tokenAt_ofTokens {index : Nat} {token : Token}
    (found : tokens[index]? = some token) : (Cursor.ofTokens tokens).tokenAt index = token := by
  obtain ⟨inside, _⟩ := List.getElem?_eq_some_iff.mp found
  unfold Cursor.ofTokens
  split
  · rename_i nothing
    simp [List.getLast?_eq_none_iff.mp nothing] at inside
  · rename_i last isLast
    split
    · rw [Cursor.tokenAt, List.getElem?_toArray, List.getElem?_dropLast]
      split
      · simp [found]
      · rename_i beyond
        have same : index = tokens.length - 1 := by omega
        rw [List.getLast?_eq_getElem?, ← same, found] at isLast
        exact (Option.some.inj isLast).symm
    · rw [Cursor.tokenAt, List.getElem?_toArray, found]
      rfl

/-- A mark behind others that is as lexical scoping says. -/
def Resolved (tokens : List Token) (before : List Mark) : Mark → Prop
  | .leaf (.call call) =>
    ∃ index, WrittenAt tokens index call.name ∧ CalledAt tokens index ∧
      (Mark.resolve before call.name.name).map MacroStmt.macroId = some call.macroId
  | .leaf (.reference name) =>
    ∃ index, WrittenAt tokens index name ∧
      (CalledAt tokens index → Mark.resolve before name.name = none)
  | _ => True

/-- Every mark is as lexical scoping says. -/
def AllResolved (tokens : List Token) (marks : List Mark) : Prop :=
  ∀ before mark later, marks = before ++ mark :: later → Resolved tokens before mark

theorem AllResolved.nil (tokens : List Token) : AllResolved tokens [] := by
  intro before mark later split
  simp at split

theorem AllResolved.concat {marks : List Mark} {mark : Mark} (all : AllResolved tokens marks)
    (last : Resolved tokens marks mark) : AllResolved tokens (marks ++ [mark]) := by
  intro before here later split
  rcases List.eq_nil_or_concat later with rfl | ⟨front, final, rfl⟩
  · obtain ⟨rfl, same⟩ := List.append_inj' split rfl
    cases same
    exact last
  · rw [List.concat_eq_append, ← List.cons_append, ← List.append_assoc] at split
    obtain ⟨rfl, -⟩ := List.append_inj' split rfl
    exact all before here front rfl

/-! ## Macros that are registered -/

/-- The definition of a macro is what is written in its declaration. -/
structure Defines (tokens : List Token) (declared : MacroStmt) (definition : MacroDef) : Prop where
  name : definition.name = declared.name.name
  span : definition.span = declared.span
  written : ∃ cursor next, (Cursor.ofTokens tokens).Forward cursor ∧
    WritesMacro declared.name definition.rules cursor next ∧
    declared.span = cursor.peek.span.through next.previousSpan

/-- Every macro that the marks declare is registered under a number of its own. -/
structure Registered (tokens : List Token) (marks : List Mark) (registry : Registry) : Prop where
  distinct : (Mark.declarations marks).Pairwise fun one two => one.macroId ≠ two.macroId
  defined : ∀ declared ∈ Mark.declarations marks,
    ∃ definition, registry.get? declared.macroId = some definition ∧
      Defines tokens declared definition

namespace Registered

variable {marks : List Mark} {registry : Registry}

theorem nil (tokens : List Token) (registry : Registry) : Registered tokens [] registry :=
  ⟨.nil, nofun⟩

/-- A mark that declares nothing does not matter. -/
theorem concat (registered : Registered tokens marks registry) (mark : Mark)
    (silent : mark.declared? = none) : Registered tokens (marks ++ [mark]) registry := by
  have same : Mark.declarations (marks ++ [mark]) = Mark.declarations marks := by
    simp [Mark.declarations, silent]
  exact ⟨same ▸ registered.distinct, same ▸ registered.defined⟩

theorem declare (registered : Registered tokens marks registry) {declared : MacroStmt}
    {definition : MacroDef} (next : declared.macroId = registry.size)
    (defines : Defines tokens declared definition) :
    Registered tokens (marks ++ [.declaration declared]) (registry.add definition) := by
  have more : Mark.declarations (marks ++ [.declaration declared]) =
      Mark.declarations marks ++ [declared] := by
    simp [Mark.declarations, Mark.declared?]
  have older : ∀ earlier ∈ Mark.declarations marks, earlier.macroId ≠ registry.size := by
    intro earlier mem same
    obtain ⟨definition, found, -⟩ := registered.defined earlier mem
    simp [same, Registry.get?, Registry.size] at found
  constructor
  · rw [more]
    apply List.pairwise_append.mpr ⟨registered.distinct, List.pairwise_singleton _ _, _⟩
    intro earlier mem last isLast
    rw [List.mem_singleton.mp isLast, next]
    exact older earlier mem
  · intro known mem
    rw [more, List.mem_append, List.mem_singleton] at mem
    rw [Registry.get?_add]
    rcases mem with mem | rfl
    · rw [if_neg (older known mem)]
      exact registered.defined known mem
    · rw [if_pos next]
      exact ⟨definition, rfl, defines⟩

end Registered

/-! ## Scopes that mirror the text -/

/-- A scope of the store holds the macros of a frame. -/
def ScopeStore.HoldsFrame (store : ScopeStore) (id : ScopeId) (frame : Mark.Frame) : Prop :=
  ∀ name, store.macroIn? id name = (frame.macro? name).map MacroStmt.macroId

/-- A declaration in another scope does not matter. -/
theorem ScopeStore.holdsFrame_bindMacro {store : ScopeStore} {stack : ScopeStack}
    {frames : List Mark.Frame} (holds : List.Forall₂ store.HoldsFrame stack frames) {id : ScopeId}
    (outside : id ∉ stack) (name : String) (target : MacroId) :
    List.Forall₂ (store.bindMacro id name target).HoldsFrame stack frames := by
  induction holds with
  | nil => exact .nil
  | @cons other frame rest _ held _ ih =>
    rw [List.mem_cons, not_or] at outside
    apply List.Forall₂.cons _ (ih outside.2)
    intro key
    rw [ScopeStore.macroIn?_bindMacro, if_neg fun both => outside.1 both.1]
    exact held key

/-- The scopes of the parser hold the macros of the open scopes. -/
structure Grammar.Context.Mirrors (context : Context) (frames : List Mark.Frame) : Prop where
  plain : context.hygiene = none
  holds : List.Forall₂ context.session.scopes.HoldsFrame context.scopes frames
  distinct : context.scopes.Nodup
  inside : ∀ id ∈ context.scopes, id < context.session.scopes.size

namespace Grammar.Context.Mirrors

variable {context : Context} {frames : List Mark.Frame}
variable (mirrors : context.Mirrors frames)
include mirrors

theorem enterScope : context.enterScope.Mirrors ([] :: frames) := by
  have free (name : String) :
      context.session.scopes.macroIn? context.session.scopes.size name = none := by
    rw [ScopeStore.macroIn?, (ScopeStore.get?_eq_none_iff _ _).mpr (Nat.le_refl _)]
    rfl
  constructor
  case plain => exact mirrors.plain
  case holds =>
    have same : context.session.scopes.alloc.HoldsFrame = context.session.scopes.HoldsFrame := by
      funext id frame
      simp only [ScopeStore.HoldsFrame, ScopeStore.macroIn?_alloc]
    simp only [Context.enterScope, Session.allocScope, same]
    exact .cons free mirrors.holds
  case distinct =>
    apply List.nodup_cons.mpr
    constructor
    · intro old
      exact Nat.lt_irrefl _ (mirrors.inside _ old)
    · exact mirrors.distinct
  case inside =>
    intro id mem
    have size : context.enterScope.session.scopes.size = context.session.scopes.size + 1 :=
      ScopeStore.size_alloc _
    rw [size]
    rcases List.mem_cons.mp mem with rfl | old
    · exact Nat.lt_succ_self _
    · exact Nat.lt_succ_of_lt (mirrors.inside id old)

theorem exitScope : context.exitScope.Mirrors (Mark.follow frames .exit) := by
  rcases context with ⟨session, scopes, hygiene⟩
  have holds := mirrors.holds
  match scopes, frames, holds with
  | [], [], _ => exact mirrors
  | [_], [_], _ => exact mirrors
  | _ :: outer :: rest, _ :: _ :: _, .cons _ others =>
    exact
      { plain := mirrors.plain
        holds := others
        distinct := (List.nodup_cons.mp mirrors.distinct).2
        inside := fun id mem => mirrors.inside id (List.mem_cons_of_mem _ mem) }

/-- Decisions about colors do not matter. -/
theorem mark (name : String) (color : Option Color) :
    (context.mark context.scopes name color).Mirrors frames := by
  rcases context with ⟨session, scopes, hygiene⟩
  cases scopes with
  | nil => exact mirrors
  | cons innermost outer =>
    constructor
    case plain => exact mirrors.plain
    case holds =>
      have same : (session.scopes.markColor innermost name color).HoldsFrame =
          session.scopes.HoldsFrame := by
        funext id frame
        simp only [ScopeStore.HoldsFrame, ScopeStore.macroIn?_markColor]
      simp only [Context.mark, Session.markColor, same]
      exact mirrors.holds
    case distinct => exact mirrors.distinct
    case inside =>
      intro id mem
      rw [Context.mark, Session.markColor, ScopeStore.size_markColor]
      exact mirrors.inside id mem

theorem declare (nonempty : frames ≠ []) (name : Identifier) (rules : List Rule) (span : Span) :
    (context.declare name.name rules span).Mirrors
      (Mark.follow frames (.declaration ⟨name, context.session.macros.size, span⟩)) := by
  rcases context with ⟨session, scopes, hygiene⟩
  have holds := mirrors.holds
  match scopes, frames, holds with
  | [], [], _ => exact absurd rfl nonempty
  | innermost :: outer, frame :: others, .cons here later =>
    have outside := (List.nodup_cons.mp mirrors.distinct).1
    have inside := mirrors.inside innermost List.mem_cons_self
    constructor
    case plain => exact mirrors.plain
    case holds =>
      apply List.Forall₂.cons _ (ScopeStore.holdsFrame_bindMacro later outside _ _)
      intro key
      have known := here key
      simp only [Mark.Frame.macro?, ScopeStore.macroIn?_bindMacro, List.find?_cons] at known ⊢
      by_cases same : name.name = key
      · simp [same, inside]
      · have differs : (name.name == key) = false := by simpa using same
        simp [same, differs, known]
    case distinct => exact mirrors.distinct
    case inside =>
      intro id mem
      simp only [Context.declare, Session.declareMacro, ScopeStore.size_bindMacro]
      exact mirrors.inside id mem

/-- The parser looks a name up in the open scopes. -/
theorem findMacro? (index : Nat) (name : String) :
    context.findMacro? index name =
      .ok ((frames.findSome? fun frame => frame.macro? name).map MacroStmt.macroId) := by
  have found : ∀ {stack : ScopeStack} {frames : List Mark.Frame},
      List.Forall₂ context.session.scopes.HoldsFrame stack frames →
        stack.findSome? (fun id => context.session.scopes.macroIn? id name) =
          (frames.findSome? fun frame => frame.macro? name).map MacroStmt.macroId := by
    intro stack frames holds
    induction holds with
    | nil => rfl
    | @cons _ frame _ _ here _ ih =>
      rw [List.findSome?_cons, List.findSome?_cons, here, ih]
      cases frame.macro? name <;> rfl
  simp only [Context.findMacro?, mirrors.plain, ScopeStore.findMacro?_eq, found mirrors.holds]

end Grammar.Context.Mirrors

/-! ## What the parser keeps -/

/-- A parser that has read the marks from the tokens has resolved all names, and its scopes
hold what the marks declare. -/
structure Tracks (tokens : List Token) (log : List Mark) (reader : Reader) : Prop where
  forward : (Cursor.ofTokens tokens).Forward reader.cursor
  mirrors : reader.context.Mirrors (Mark.openScopes log)
  resolved : AllResolved tokens log
  registered : Registered tokens log reader.context.session.macros

namespace Tracks

variable {log : List Mark} {reader : Reader}

section

variable (tracks : Tracks tokens log reader)
include tracks

theorem ready : reader.cursor.Ready :=
  tracks.forward.ready (Cursor.ready_ofTokens tokens)

theorem move {next : Cursor} (forward : reader.cursor.Forward next) :
    Tracks tokens log ⟨next, reader.context⟩ :=
  { tracks with forward := tracks.forward.trans forward }

/-- Add a mark, with what it does to the open scopes and to the macros. -/
theorem add {mark : Mark} {context : Context}
    (mirrors : context.Mirrors (Mark.follow (Mark.openScopes log) mark))
    (resolved : Resolved tokens log mark)
    (registered : Registered tokens (log ++ [mark]) context.session.macros) :
    Tracks tokens (log ++ [mark]) ⟨reader.cursor, context⟩ where
  forward := tracks.forward
  mirrors := by
    rw [Mark.openScopes_append]
    exact mirrors
  resolved := tracks.resolved.concat resolved
  registered := registered

theorem getElem?_tokens {index : Nat} (inside : index < reader.cursor.tokens.size) :
    tokens[index]? = some (reader.cursor.tokenAt index) := by
  rw [tracks.forward.tokens] at inside
  rw [tracks.forward.tokenAt]
  exact Cursor.getElem?_of_lt inside

theorem writtenAt (isName : reader.cursor.peek.isName = true) :
    WrittenAt tokens reader.cursor.index reader.cursor.peek.identifier :=
  ⟨reader.cursor.peek, tracks.getElem?_tokens (tracks.ready.lt_of_isName isName), isName, rfl⟩

end

theorem calledAt_iff (tracks : Tracks tokens log reader) :
    CalledAt tokens reader.cursor.index ↔ (reader.cursor.peekAt 1).isPunct "(" = true := by
  constructor
  · rintro ⟨opening, found, opens⟩
    rwa [Cursor.peekAt, tracks.forward.tokenAt, Cursor.tokenAt_ofTokens found]
  · intro opens
    exact ⟨_, tracks.getElem?_tokens (tracks.ready.lt_of_isPunct opens), opens⟩

end Tracks

/-! ## The parser in tandem with itself -/

variable {log : List Mark} {one : Reader}

/-- A parser that keeps track of the open scopes. -/
def trackingLockstep (tokens : List Token) : Lockstep {} where
  Related log one two := two = one ∧ Tracks tokens log one
  Failed _ _ := True
  cursor related := by rw [related.1, Renumbering.cursor_of_still rfl]
  ready related := related.2.ready
  failed _ := trivial
  failedExit _ := trivial
  move related forward := by
    rw [related.1, Renumbering.cursor_of_still rfl]
    exact ⟨rfl, related.2.move forward⟩
  enter related := by
    rw [related.1]
    exact ⟨rfl, related.2.add related.2.mirrors.enterScope trivial
      (related.2.registered.concat _ rfl)⟩
  exit {log one two} related := by
    have registered := related.2.registered.concat .exit rfl
    rw [← Context.exitScope_session one.context] at registered
    rw [related.1]
    exact ⟨rfl, related.2.add related.2.mirrors.exitScope trivial registered⟩

/-- It is enough to look at the run itself, when it is a single action. -/
theorem outcome_of_stepped {α : Type} {map : α → α} {view : α → List Mark}
    {leaves : α → List Leaf} {result : EStateM.Result Fault State α}
    (stepped : Stepped one leaves result)
    (goesOn : ∀ {value after places}, result = .ok value after.state → Step one places after →
      leaves value = places.map Prod.snd →
        map value = value ∧ Tracks tokens (log ++ view value) after) :
    (trackingLockstep tokens).Outcome map view log result result := by
  cases result with
  | error fault state =>
    obtain ⟨after, rfl, _⟩ := stepped
    exact .error trivial
  | ok value state =>
    obtain ⟨after, places, rfl, step, seen⟩ := stepped
    obtain ⟨same, tracks⟩ := goesOn rfl step seen
    have run : (trackingLockstep tokens).Outcome map view log (.ok value after.state)
        (.ok (map value) after.state) := .ok ⟨rfl, tracks⟩
    rwa [same] at run

theorem outcome_bindingName (tracks : Tracks tokens log one) :
    (trackingLockstep tokens).Outcome ({} : Renumbering).identifier (fun name => [.binding name])
      log (bindingName one.state) (bindingName one.state) := by
  apply outcome_of_stepped (stepped_bindingName tracks.ready)
  rintro name after places - step seen
  cases step with
  | @binding cursor context bound color isName binds colored =>
    obtain rfl : name = _ := Leaf.binding.inj (List.cons.inj seen).1
    rw [Context.bindName_of_plain tracks.mirrors.plain, Except.ok.injEq] at binds
    subst binds
    have moved := tracks.move tracks.ready.forward_advance
    have registered := moved.registered.concat
      (.binding (cursor.peek.identifier.applyColor? color)) rfl
    rw [← Context.mark_macros context context.scopes cursor.peek.text none] at registered
    exact ⟨Renumbering.identifier_of_still rfl _ _,
      moved.add (moved.mirrors.mark _ _) trivial registered⟩
  | _ => simp at seen

/-- A name that is read as a reference, where lexical scoping allows it. -/
theorem outcome_referenceName (tracks : Tracks tokens log one)
    (allowed : one.cursor.peek.isName = true → CalledAt tokens one.cursor.index →
      Mark.resolve log one.cursor.peek.text = none) :
    (trackingLockstep tokens).Outcome ({} : Renumbering).identifier (fun name => [.reference name])
      log (referenceName one.state) (referenceName one.state) := by
  apply outcome_of_stepped (stepped_referenceName tracks.ready)
  rintro name after places - step seen
  cases step with
  | @reference cursor context color isName colored =>
    obtain rfl : name = _ := Leaf.reference.inj (List.cons.inj seen).1
    rw [Context.tokenColor_of_plain tracks.mirrors.plain, Except.ok.injEq] at colored
    subst colored
    have moved := tracks.move tracks.ready.forward_advance
    exact ⟨Renumbering.identifier_of_still rfl _ _,
      moved.add moved.mirrors ⟨_, tracks.writtenAt isName, allowed isName⟩
        (moved.registered.concat _ rfl)⟩
  | _ => simp at seen

theorem results_macroCall (macroId : MacroId) :
    Results (fun expr => ∃ call, expr = .invocation call) (macroCall macroId) :=
  .bind fun _ => .bind fun _ => .bind fun _ => .bind fun _ => .bind fun _ => .bind fun _ =>
    .bind fun _ => .pure ⟨_, rfl⟩

theorem outcome_macroCall (tracks : Tracks tokens log one) {macroId : MacroId}
    (isName : one.cursor.peek.isName = true) (opens : (one.cursor.peekAt 1).isPunct "(" = true)
    (found : (Mark.resolve log one.cursor.peek.text).map MacroStmt.macroId = some macroId) :
    (trackingLockstep tokens).Outcome ({} : Renumbering).expr Mark.ofExpr log
      (macroCall macroId one.state) (macroCall macroId one.state) := by
  have lookup := tracks.mirrors.findMacro? one.cursor.index one.cursor.peek.text
  apply outcome_of_stepped (stepped_macroCall tracks.ready isName opens (lookup.trans (by
    rw [← found, Mark.resolve])))
  rintro value after places run step seen
  obtain ⟨call, rfl⟩ := results_macroCall macroId _ _ _ run
  cases step with
  | call _ foundToo taken fixed forward behind =>
    obtain rfl : call = _ := Leaf.call.inj (List.cons.inj seen).1
    have moved := tracks.move forward
    rw [lookup, Except.ok.injEq] at foundToo
    constructor
    · exact congrArg Expr.invocation
        (Renumbering.call_of_still rfl rfl (by simp [Renumbering.macroId]))
    · exact moved.add moved.mirrors
        ⟨_, tracks.writtenAt isName, tracks.calledAt_iff.mpr opens, foundToo⟩
        (moved.registered.concat _ rfl)
  | _ => simp [Leaf.ofExpr, Mark.ofExpr] at seen

theorem outcome_nameExpression (tracks : Tracks tokens log one) :
    (trackingLockstep tokens).Outcome ({} : Renumbering).expr Mark.ofExpr log
      (nameExpression one.state) (nameExpression one.state) := by
  have reference (allowed : one.cursor.peek.isName = true → CalledAt tokens one.cursor.index →
      Mark.resolve log one.cursor.peek.text = none) :
      (trackingLockstep tokens).Outcome ({} : Renumbering).expr Mark.ofExpr log
        ((do return .identifier (← referenceName) : Parser Expr) one.state)
        ((do return .identifier (← referenceName) : Parser Expr) one.state) := by
    apply (outcome_referenceName tracks allowed).bind
    intro name
    exact .pure rfl rfl
  rw [nameExpression_state]
  by_cases callable : (one.cursor.peek.isName && (one.cursor.peekAt 1).isPunct "(") = true
  · obtain ⟨isName, opens⟩ := Bool.and_eq_true_iff.mp callable
    simp only [callable, if_true, tracks.mirrors.findMacro?]
    cases found : Mark.resolve log one.cursor.peek.text with
    | none =>
      rw [Mark.resolve] at found
      simp only [found]
      exact reference fun _ _ => found
    | some declared =>
      have run := outcome_macroCall tracks isName opens (congrArg (Option.map _) found)
      rw [Mark.resolve] at found
      simp only [found]
      exact run
  · simp only [callable]
    apply reference
    intro isName called
    exact absurd (Bool.and_eq_true_iff.mpr ⟨isName, tracks.calledAt_iff.mp called⟩) callable

theorem results_macroDeclaration :
    Results (fun stmt => ∃ declared, stmt = .macroDeclaration declared) macroDeclaration :=
  .bind fun _ => .bind fun _ => .bind fun _ => .bind fun _ => .bind fun _ => .bind fun _ =>
    .bind fun _ => .bind fun _ => .ite (.malformed _ _)
      (.bind fun _ => .bind fun _ => .pure ⟨_, rfl⟩)

theorem outcome_macroDeclaration (tracks : Tracks tokens log one) :
    (trackingLockstep tokens).Outcome ({} : Renumbering).stmt Mark.ofStmt log
      (macroDeclaration one.state) (macroDeclaration one.state) := by
  apply outcome_of_stepped (stepped_macroDeclaration tracks.ready)
  rintro value after places run step seen
  obtain ⟨declared, rfl⟩ := results_macroDeclaration _ _ _ run
  cases step with
  | @declaration cursor next context name rules forward inside templates written =>
    obtain rfl : declared = _ := Leaf.declaration.inj (List.cons.inj seen).1
    have moved := tracks.move forward
    have mirrors := (moved.mirrors.mark name.name none).declare (Mark.openScopes_ne_nil log) name
      rules (cursor.peek.span.through next.previousSpan)
    rw [Context.mark_macros] at mirrors
    have macros := Context.mark_macros context context.scopes name.name none
    have registered : Registered tokens log
        (context.mark context.scopes name.name none).session.macros := macros ▸ tracks.registered
    refine ⟨rfl, moved.add mirrors trivial
      (registered.declare (congrArg Registry.size macros.symm) ?_)⟩
    exact ⟨rfl, rfl, cursor, next, tracks.forward, written, rfl⟩
  | _ => simp [Leaf.ofStmt, Mark.ofStmt] at seen

/-- The parser keeps track of the open scopes in all it reads. -/
def trackingSimulation (tokens : List Token) : Simulation {} where
  toLockstep := trackingLockstep tokens
  literal related written inside kind := by
    obtain ⟨rfl, tracks⟩ := related
    have moved := tracks.move tracks.ready.forward_advance
    rw [Renumbering.cursor_of_still rfl]
    exact ⟨rfl, moved.add moved.mirrors trivial (moved.registered.concat _ rfl)⟩
  bindingName log one two related := by
    obtain ⟨rfl, tracks⟩ := related
    rw [List.append_nil] at tracks
    exact outcome_bindingName tracks
  referenceName related uncalled := by
    obtain ⟨rfl, tracks⟩ := related
    apply outcome_referenceName tracks
    intro _ called
    rw [tracks.calledAt_iff, uncalled] at called
    cases called
  nameExpression log one two related := by
    obtain ⟨rfl, tracks⟩ := related
    rw [List.append_nil] at tracks
    exact outcome_nameExpression tracks
  macroDeclaration related _ _ := by
    obtain ⟨rfl, tracks⟩ := related
    exact outcome_macroDeclaration tracks

theorem tracks_of_outcome {α : Type} {map : α → α} {view : α → List Mark}
    {first second : EStateM.Result Fault State α} {value : α} {state : State}
    (outcome : (trackingLockstep tokens).Outcome map view log first second)
    (run : first = .ok value state) :
    ∃ after, state = after.state ∧ Tracks tokens (log ++ view value) after := by
  cases outcome with
  | error _ => cases run
  | ok related =>
    cases run
    exact ⟨_, rfl, related.2⟩

theorem tracks_reader (session : Session) (tokens : List Token) :
    Tracks tokens [] (session.reader tokens [] none) := by
  constructor
  case forward => exact .refl (Cursor.ready_ofTokens tokens)
  case mirrors =>
    have nothing : Context.Mirrors ⟨session, [], none⟩ [] := ⟨rfl, .nil, .nil, by simp⟩
    exact nothing.enterScope
  case resolved => exact .nil tokens
  case registered => exact .nil tokens _

/-- What has become of the names and of the macros, when a program is read. -/
theorem readProgram_tracked {source : String} {session after : Session} {program : Program}
    (scanned : tokenize source = .ok tokens)
    (run : Session.readProgram source session = .ok program after) :
    AllResolved tokens (Mark.ofProgram program) ∧
      Registered tokens (Mark.ofProgram program) after.macros := by
  have outcome := tandem_program (trackingSimulation tokens) [] _ _
    ⟨rfl, tracks_reader session tokens⟩
  unfold Session.readProgram at run
  simp only [scanned, bind_eq_ok_iff, pure_eq_ok_iff] at run
  obtain ⟨⟨read, state⟩, last, readRun, rfl, rfl⟩ := run
  cases parsed : Grammar.program (session.readerState tokens [] none) with
  | error fault final =>
    rw [Session.read, parsed] at readRun
    cases readRun
  | ok value final =>
    rw [Session.read, parsed] at readRun
    cases readRun
    rw [← Session.reader_state] at parsed
    obtain ⟨reader, rfl, tracks⟩ := tracks_of_outcome outcome parsed
    exact ⟨tracks.resolved, tracks.registered⟩

/-- Macros are resolved lexically.  A macro call is a name that is followed by an opening
parenthesis, and it calls the latest macro of that name in the innermost open scope that has
one: its number is that of the declaration, no other declaration has it, and what is registered
under it is what the declaration says.  Any other name that is followed by an opening parenthesis
stands for no macro in an open scope.  All that is seen behind a statement is what it declares in
the scope that it stands in, and nothing that is declared in a function, a block, a handler or a
switch is seen after its end. -/
theorem readProgram_resolves_lexically {source : String} {session after : Session}
    {program : Program} {tokens : List Token} (scanned : tokenize source = .ok tokens)
    (run : Session.readProgram source session = .ok program after) :
    (∀ before call later, Mark.ofProgram program = before ++ .call call :: later →
      ∃ index declared definition, WrittenAt tokens index call.name ∧ CalledAt tokens index ∧
        Mark.resolve before call.name.name = some declared ∧ declared.macroId = call.macroId ∧
        after.macros.get? call.macroId = some definition ∧ Defines tokens declared definition) ∧
    Registered tokens (Mark.ofProgram program) after.macros ∧
    (∀ before name later, Mark.ofProgram program = before ++ .reference name :: later →
      ∃ index, WrittenAt tokens index name ∧
        (CalledAt tokens index → Mark.resolve before name.name = none)) ∧
    (∀ before stmt name, Mark.resolve (before ++ Mark.ofStmt stmt) name =
      ((Mark.Frame.ofStmt stmt).macro? name).or (Mark.resolve before name)) ∧
    (∀ expr, Mark.Quiet (Mark.ofExpr expr)) ∧
    (∀ block, Mark.Quiet (Mark.enclosed (Mark.ofBlock block))) ∧
    (∀ clause, Mark.Quiet (Mark.ofCatch? clause)) ∧
    ∀ cases, Mark.Quiet (Mark.enclosed (Mark.ofCases cases)) := by
  obtain ⟨resolved, registered⟩ := readProgram_tracked scanned run
  refine ⟨?_, registered,
    fun before name later split => resolved before (.reference name) later split,
    fun before stmt name => (Mark.declares_ofStmt stmt).resolve before name,
    Mark.declares_ofExpr, fun block => (Mark.declares_ofBlock block).enclosed,
    Mark.declares_ofCatch?, fun cases => (Mark.declares_ofCases cases).enclosed⟩
  intro before call later split
  obtain ⟨index, written, called, number⟩ := resolved before (.call call) later split
  obtain ⟨declared, found, same⟩ := Option.map_eq_some_iff.mp number
  have mem : declared ∈ Mark.declarations (Mark.ofProgram program) := by
    rw [split, Mark.declarations, List.filterMap_append]
    exact List.mem_append_left _ (Mark.mem_of_resolve found)
  obtain ⟨definition, kept, defines⟩ := registered.defined declared mem
  exact ⟨index, declared, definition, written, called, found, same, same ▸ kept, defines⟩

/-- A macro that is declared again in a block, and called in the block and behind it. -/
def shadowedMacro : String :=
  "macro m \x7b () => \x7b 1 \x7d \x7d \x7b macro m \x7b () => \x7b 2 \x7d \x7d m(); \x7d m(); f();"

/-- The calls of `shadowedMacro` are of the second and of the first macro, and its last name
is a reference. -/
theorem readProgram_shadowedMacro :
    ∃ tokens program after, tokenize shadowedMacro = .ok tokens ∧
      Session.readProgram shadowedMacro {} = .ok program after ∧
      (Leaf.calls (Leaf.ofProgram program)).map Invocation.macroId = [1, 0] ∧
      after.macros.size = 2 ∧ Registered tokens (Mark.ofProgram program) after.macros ∧
      (∀ before call later, Mark.ofProgram program = before ++ .call call :: later →
        ∃ index declared definition, WrittenAt tokens index call.name ∧ CalledAt tokens index ∧
          Mark.resolve before call.name.name = some declared ∧ declared.macroId = call.macroId ∧
          after.macros.get? call.macroId = some definition ∧ Defines tokens declared definition) ∧
      ∀ before name later, Mark.ofProgram program = before ++ .reference name :: later →
        ∃ index, WrittenAt tokens index name ∧
          (CalledAt tokens index → Mark.resolve before name.name = none) := by
  have ended : endsWith (fun program after => (Leaf.calls (Leaf.ofProgram program)).map
      Invocation.macroId == [1, 0] && after.macros.size == 2)
      (Session.readProgram shadowedMacro {}) = true := by
    decide +kernel
  obtain ⟨program, after, run, seen⟩ := exists_ok_of_endsWith ended
  obtain ⟨numbers, size⟩ := Bool.and_eq_true_iff.mp seen
  obtain ⟨tokens, _, _, scanned, -⟩ := Session.readProgram_eq_ok run
  have resolved := readProgram_resolves_lexically scanned run
  exact ⟨tokens, program, after, scanned, run, beq_iff_eq.mp numbers, beq_iff_eq.mp size,
    resolved.2.1, resolved.1, resolved.2.2.1⟩

end MacroScript
