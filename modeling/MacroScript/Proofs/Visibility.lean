import MacroScript.Compile
import MacroScript.Proofs.Hygiene.Performed
import MacroScript.Proofs.Splicing.Upkeep

/-!
# Which macros are visible

An expansion may declare macros, in its template and in its arguments.  It declares them in
scopes of its own, which no stack of scopes from before the expansion mentions.  In the scopes
that were there before, it records colors at most.

So no expansion changes which macro a name calls, seen from scopes that were there before,
however the expansions are nested and whether they come to a program or to a fault.
-/

namespace MacroScript

open MacroScript.Grammar MacroScript.Outcome

/-! ## Scopes that keep their macros -/

/-- A later state of a scope: its names call the same macros, and a name that was marked with
a color still is, perhaps with another one. -/
structure Scope.KeepsMacros (before after : Scope) : Prop where
  macros : after.macros = before.macros
  marked (name : String) :
    (before.colors.lookup name).isSome → (after.colors.lookup name).isSome

namespace Scope.KeepsMacros

theorem refl (scope : Scope) : scope.KeepsMacros scope :=
  ⟨rfl, fun _ => id⟩

theorem trans {first second third : Scope} (one : first.KeepsMacros second)
    (two : second.KeepsMacros third) : first.KeepsMacros third where
  macros := two.macros.trans one.macros
  marked name known := two.marked name (one.marked name known)

theorem putColor (scope : Scope) (name : String) (color : Option Color) :
    scope.KeepsMacros { scope with colors := put name color scope.colors } := by
  constructor
  · rfl
  · intro other known
    by_cases same : other = name
    · rw [same, lookup_put_self]
      rfl
    · rwa [lookup_put_of_ne same]

end Scope.KeepsMacros

/-- The scopes below a floor keep their macros. -/
def ScopeStore.KeepsMacros (floor : Nat) (before after : ScopeStore) : Prop :=
  ∀ id < floor, ∀ scope, before.get? id = some scope →
    ∃ later, after.get? id = some later ∧ scope.KeepsMacros later

namespace ScopeStore.KeepsMacros

variable {floor : Nat} {first second third : ScopeStore}

theorem of_agreeBelow (agree : second.AgreeBelow floor first) :
    KeepsMacros floor first second := by
  intro id below scope found
  exact ⟨scope, (agree id below).trans found, .refl scope⟩

theorem trans (one : KeepsMacros floor first second) (two : KeepsMacros floor second third) :
    KeepsMacros floor first third := by
  intro id below scope found
  rcases one id below scope found with ⟨middle, foundMiddle, keepsFirst⟩
  rcases two id below middle foundMiddle with ⟨last, foundLast, keepsSecond⟩
  exact ⟨last, foundLast, keepsFirst.trans keepsSecond⟩

theorem record (store : ScopeStore) (decision : Decision) :
    KeepsMacros floor store (store.record decision) := by
  intro id below scope found
  rw [ScopeStore.record, ScopeStore.markColor, get?_modify, found]
  by_cases here : decision.scope = id
  · exact ⟨_, if_pos here, .putColor scope _ _⟩
  · exact ⟨scope, if_neg here, .refl scope⟩

theorem replay (store : ScopeStore) (decisions : List Decision) :
    KeepsMacros floor store (store.replay decisions) := by
  induction decisions generalizing store with
  | nil => exact of_agreeBelow (.refl store)
  | cons decision rest ih => exact (record store decision).trans (ih (store.record decision))

end ScopeStore.KeepsMacros

/-- Stacks of scopes below the floor find the same macros. -/
theorem ScopeStore.KeepsMacros.findMacro? {floor : Nat} {before after : ScopeStore}
    (keeps : before.KeepsMacros floor after) (inside : floor ≤ before.size)
    {stack : ScopeStack} (below : ∀ id ∈ stack, id < floor) (name : String) :
    after.findMacro? stack name = before.findMacro? stack name := by
  induction stack with
  | nil => rfl
  | cons id outer ih =>
    rcases List.forall_mem_cons.mp below with ⟨idBelow, outerBelow⟩
    rcases get?_isSome_of_lt (Nat.lt_of_lt_of_le idBelow inside) with ⟨scope, found⟩
    rcases keeps id idBelow scope found with ⟨later, foundLater, same⟩
    have rest := ih outerBelow
    simp only [ScopeStore.findMacro?] at rest
    simp only [ScopeStore.findMacro?, List.findSome?_cons, found, foundLater, Option.bind_some,
      same.macros, rest]

/-! ## Sessions that keep their macros -/

/-- A later state of a session: its scopes keep their macros, and its macros are defined as
before. -/
structure Session.KeepsMacros (before after : Session) : Prop where
  scopes : before.scopes.KeepsMacros before.scopes.size after.scopes
  registry {id : MacroId} {definition : MacroDef}
    (found : before.macros.get? id = some definition) : after.macros.get? id = some definition

namespace Session.KeepsMacros

variable {before after : Session}

theorem of_eq (scopes : after.scopes = before.scopes) (macros : after.macros = before.macros) :
    before.KeepsMacros after where
  scopes := .of_agreeBelow (scopes ▸ .refl _)
  registry found := macros ▸ found

theorem refl (session : Session) : session.KeepsMacros session :=
  of_eq rfl rfl

theorem trans {first second third : Session} (one : first.KeepsMacros second)
    (two : second.KeepsMacros third) : first.KeepsMacros third where
  scopes := by
    intro id below scope found
    rcases one.scopes id below scope found with ⟨middle, foundMiddle, keepsFirst⟩
    rcases two.scopes id (ScopeStore.lt_of_get?_eq_some foundMiddle) middle foundMiddle with
      ⟨last, foundLast, keepsSecond⟩
    exact ⟨last, foundLast, keepsFirst.trans keepsSecond⟩
  registry found := two.registry (one.registry found)

theorem of_quiet (quiet : before.Quiet after) :
    before.KeepsMacros after where
  scopes := .of_agreeBelow quiet.scopes
  registry := quiet.grows.macros

instance : IsPreorder Session KeepsMacros where
  refl := refl
  trans _ _ _ := trans

end Session.KeepsMacros

/-! ## Reading a transcript -/

namespace Grammar

variable {floor : Nat} {reader after : Reader} {places : List Place}

/-- A step marks names in any scope, and declares macros in the parser's own. -/
theorem Step.keepsMacros (step : Step reader places after)
    (fresh : reader.context.Fresh floor) :
    reader.context.session.scopes.KeepsMacros floor after.context.session.scopes := by
  have marks : ∀ (context : Context) (stack : ScopeStack) (name : String)
      (color : Option Color),
      context.session.scopes.KeepsMacros floor
        (context.mark stack name color).session.scopes := by
    intro context stack name color
    rw [Context.mark_store]
    exact .replay _ _
  cases step with
  | move forward => exact .of_agreeBelow (.refl _)
  | binding isName binds colored =>
    cases Context.binds_of_bindName binds with
    | plain plain => exact marks _ _ _ _
    | body hygienic body =>
      simp only [Context.bindBody_store]
      exact .replay _ _
    | invocation hygienic invocation => exact marks _ _ _ _
  | reference isName colored
  | call isName found taken fixed forward behind => exact .of_agreeBelow (.refl _)
  | declaration forward inside templates written =>
    apply (marks _ _ _ _).trans
    exact .of_agreeBelow ((fresh.advances (.mark _ _ _ _)).declare _ _ _)
  | abandoned forward => exact marks _ _ _ _

theorem Walk.keepsMacros (walk : Walk reader places after)
    (fresh : reader.context.Fresh floor) :
    reader.context.session.scopes.KeepsMacros floor after.context.session.scopes := by
  induction walk with
  | nil reader => exact .of_agreeBelow (.refl _)
  | step step => exact step.keepsMacros fresh
  | append one two first second =>
    exact (first fresh).trans (second (fresh.advances (one.advances fresh.nonempty)))
  | enclosed inner ih =>
    rw [Reader.exit, Context.exitScope_session]
    exact (ScopeStore.KeepsMacros.of_agreeBelow (.alloc fresh.inside)).trans
      (ih fresh.enterScope)

end Grammar

/-- A walk in a session keeps the macros of the session. -/
theorem Session.keepsMacros_of_walk {session : Session} {tokens : List Token}
    {outer : ScopeStack} {hygiene : Option Hygiene} {places : List Place} {final : Reader}
    (walk : Walk (session.reader tokens outer hygiene) places final) :
    session.KeepsMacros final.context.session where
  scopes := by
    have opened : session.scopes.KeepsMacros session.scopes.size session.allocScope.scopes :=
      .of_agreeBelow (.alloc (Nat.le_refl _))
    exact opened.trans (walk.keepsMacros fresh_reader)
  registry := (walk.advances fresh_reader.nonempty).grows.macros

theorem Expansion.keepsMacros_readTranscript (definition : MacroDef) (call : Invocation)
    (transcript : List Transcript.Placed) :
    Leads Session.KeepsMacros (readTranscript definition call transcript) := by
  intro session
  have walked := yields_program (readerOf definition call transcript session)
    Session.ready_reader
  rw [readerOf, Session.reader_state, hygieneOf] at walked
  unfold readTranscript Session.read
  simp only
  split
  · rename_i program state after run
    split at run
    · rename_i value last outcome
      rw [outcome] at walked
      rcases walked with ⟨reader, places, rfl, walk, -⟩
      cases run
      exact Session.keepsMacros_of_walk walk
    · cases run
  · rename_i fault after run
    split at run
    · cases run
    · rename_i complaint last outcome
      rw [outcome] at walked
      rcases walked with ⟨reader, places, rfl, walk, -⟩
      cases run
      exact Session.keepsMacros_of_walk walk

/-! ## Expanding -/

theorem keepsMacros_definitionOf (call : Invocation) :
    Leads Session.KeepsMacros (definitionOf call) := by
  have looked : Leads Session.KeepsMacros (get : SessionM Session) := .refl
  apply looked.bind
  intro session
  split
  · exact .pure _
  · exact .throw _

/-- Expanding one call keeps the macros of the session. -/
theorem keepsMacros_expand (call : Invocation) : Leads Session.KeepsMacros (expand call) := by
  have matched : Leads Session.KeepsMacros (Matching.matchCall call) :=
    .bind (keepsMacros_definitionOf call) fun definition session =>
      have tried := (Matching.ensures_firstMatch call definition.name 0 definition.rules
        fun _ _ => trivial).final (.refl session)
      .of_quiet tried.keeps.quiet
  apply Leads.bind (keepsMacros_definitionOf call)
  intro definition
  apply Leads.bind matched
  rintro ⟨number, rule, bindings⟩
  simp only
  split
  · exact .throw _
  · exact .bind (Expansion.keepsMacros_readTranscript definition call _)
      fun _ => .pure _

/-- Sessions that keep their macros, whatever is expanded in them. -/
def keepingMacros : Upkeep where
  World := Session
  session world := world
  related := Session.KeepsMacros
  blamed session _ after := session.KeepsMacros after
  fine _ _ := True
  refl := .refl
  trans := .trans
  failing := .trans
  later _ := id
  retrace _ _ := ⟨_, rfl, .of_eq rfl rfl⟩
  complain _ _ := .refl _
  expand {session call} _ := by
    have keeps := keepsMacros_expand call session
    cases run : expand call session with
    | ok expansion after =>
      rw [run] at keeps
      exact ⟨after, rfl, keeps, fun _ _ => trivial⟩
    | error fault after => rwa [run] at keeps

/-- Compiling a program changes no macro that is visible in the session: whether it comes to a
program or to a fault, the scopes that were there keep their macros and gain or change marks
only, the macros that were there are defined as before, and every stack of those scopes finds
the same macros. -/
theorem compile_keeps_visible_macros (options : CompileOptions) (program : Program)
    (session : Session) :
    session.KeepsMacros (final (compile options program session)) ∧
      ∀ stack : ScopeStack, (∀ id ∈ stack, id < session.scopes.size) → ∀ name,
        (final (compile options program session)).scopes.findMacro? stack name =
          session.scopes.findMacro? stack name := by
  have keeps : session.KeepsMacros (final (compile options program session)) := by
    have met : keepingMacros.Meets session (fun _ _ => True) (compile options program session) :=
      keepingMacros.compile options fun _ _ => trivial
    cases run : compile options program session with
    | ok result after =>
      rw [run] at met
      obtain ⟨_, rfl, keeps, -⟩ := met
      exact keeps
    | error fault after => rwa [run] at met
  constructor
  · exact keeps
  · intro stack below name
    exact keeps.scopes.findMacro? (Nat.le_refl _) below name

/-! ## Macros declared by an expansion that fails later -/

/-- The template of a macro declares a macro and binds a name, and its argument declares
another macro.  A second call does not match. -/
def declaringMacros : String :=
  "macro m \x7b ($s:stmt) => \x7b macro n \x7b () => \x7b 1 \x7d \x7d let t = n(); $s \x7d \x7d " ++
    "m(macro k \x7b () => \x7b 2 \x7d \x7d); m();"

/-- Three macros were declared and a name was marked before the second call failed, and the
scope of the source still has its one macro. -/
theorem declaringMacros_keeps_visible_macros :
    ∃ program session fault after,
      Session.readProgram declaringMacros {} = .ok program session ∧
        compile {} program session = .error fault after ∧
          session.macros.size = 1 ∧ after.macros.size = 4 ∧
            after.scopes.get? 0 =
                some { macros := [("m", 0)], colors := [("t", some 1), ("m", none)] } ∧
              session.KeepsMacros after ∧
                ∀ name, after.scopes.findMacro? [0] name = session.scopes.findMacro? [0] name := by
  have evaluated : endsWith (fun program (session : Session) =>
      session.macros.size == 1 && session.scopes.size == 1 &&
        failsWith (fun after : Session =>
          after.macros.size == 4 && after.scopes.get? 0 ==
            some { macros := [("m", 0)], colors := [("t", some 1), ("m", none)] })
          (compile {} program session)) (Session.readProgram declaringMacros {}) = true := by
    decide +kernel
  rcases exists_ok_of_endsWith evaluated with ⟨program, session, readRun, compiled⟩
  simp only [Bool.and_eq_true, beq_iff_eq] at compiled
  rcases compiled with ⟨⟨declared, size⟩, failed⟩
  rcases exists_error_of_failsWith failed with ⟨fault, after, compileRun, holds⟩
  simp only [Bool.and_eq_true, beq_iff_eq] at holds
  have kept := compile_keeps_visible_macros {} program session
  rw [compileRun] at kept
  rcases kept with ⟨keeps, visible⟩
  have inside : ∀ id ∈ [0], id < session.scopes.size := by
    simp [size]
  exact ⟨program, session, fault, after, readRun, compileRun, declared, holds.1, holds.2,
    keeps, visible [0] inside⟩

end MacroScript
