import MacroScript.Proofs.Hygiene.Run

/-!
# Calls of registered macros

Every name that calls a macro in some scope of a session calls one that the session has
registered.  Parsers keep this, whether they come to a value or not, and the calls they
produce refer to registered macros.  Macros are never removed, so a call that waits can
still be expanded when its turn comes.

A computation in such a session is settled when it has left such a session, or has ended
with a fault that does not blame the compiler.
-/

namespace MacroScript

open MacroScript.Grammar

variable {call : Invocation} {before after session : Session}

/-! ## Sessions and calls -/

/-- The names that call macros call registered ones. -/
def Session.Registered (session : Session) : Prop :=
  ∀ id scope, session.scopes.get? id = some scope →
    ∀ entry ∈ scope.macros, entry.2 < session.macros.size

/-- A call of a registered macro. -/
def Invocation.Registered (call : Invocation) (session : Session) : Prop :=
  call.macroId < session.macros.size

theorem Invocation.Registered.grows (registered : call.Registered before)
    (grows : before.Grows after) : call.Registered after :=
  Nat.lt_of_lt_of_le registered grows.macros_size_le

/-- A registered macro has a definition. -/
theorem Invocation.Registered.exists_definition (registered : call.Registered session) :
    ∃ definition, session.macros.get? call.macroId = some definition :=
  ⟨_, Array.getElem?_eq_getElem registered⟩

namespace Session.Registered

theorem empty : Registered {} := by
  intro id scope found
  simp [ScopeStore.get?] at found

section

variable (registered : session.Registered)
include registered

theorem allocScope : session.allocScope.Registered := by
  intro id scope found
  rcases ScopeStore.known_of_alloc found with old | ⟨-, rfl⟩
  · exact registered id scope old
  · simp

/-- Changing one scope and adding macros keep the entries that were there. -/
theorem modify {id : ScopeId} {change : Scope → Scope} {macros : Registry}
    (larger : session.macros.size ≤ macros.size)
    (entries : ∀ scope, ∀ entry ∈ (change scope).macros,
      entry ∈ scope.macros ∨ entry.2 < macros.size) :
    Registered { session with scopes := session.scopes.modify id change, macros } := by
  intro other scope found entry mem
  obtain ⟨former, formerFound, changed⟩ := ScopeStore.known_of_modify found
  have kept {old} (mem : old ∈ former.macros) : old.2 < macros.size :=
    Nat.lt_of_lt_of_le (registered other former formerFound old mem) larger
  rcases changed with rfl | ⟨-, rfl⟩
  · exact kept mem
  · exact (entries former entry mem).elim kept fun new => new

theorem markColor (id : ScopeId) (name : String) (color : Option Color) :
    (session.markColor id name color).Registered :=
  registered.modify (Nat.le_refl _) fun _ _ mem => .inl mem

theorem claimColor (hygiene : Hygiene) : (session.claimColor hygiene).2.2.Registered := by
  unfold Session.claimColor
  split
  · exact registered
  · exact registered

theorem declareMacro (id : ScopeId) (definition : MacroDef) :
    (session.declareMacro id definition).Registered := by
  have size : (session.macros.add definition).size = session.macros.size + 1 :=
    Registry.size_add _ _
  apply registered.modify
  · rw [size]
    exact Nat.le_succ _
  · intro scope entry mem
    rcases List.mem_cons.mp mem with rfl | kept
    · rw [size]
      exact .inr (Nat.lt_succ_self _)
    · exact .inl (List.mem_filter.mp kept).1

/-- A macro that is found is registered. -/
theorem findMacro? {stack : ScopeStack} {name : String} {macroId : MacroId}
    (found : session.scopes.findMacro? stack name = some macroId) :
    macroId < session.macros.size := by
  rcases ScopeStore.mem_of_findMacro? found with ⟨id, -, scope, known, entry⟩
  exact registered id scope known _ entry

end

end Session.Registered

/-! ## Parsers -/

namespace Grammar

variable {reader after : Reader} {places : List Place}

namespace Context

variable {context : Context} {index : Nat} {name : String}
variable (registered : context.session.Registered)
include registered

theorem registered_mark (stack : ScopeStack) (name : String) (color : Option Color) :
    (context.mark stack name color).session.Registered := by
  cases stack with
  | nil => exact registered
  | cons innermost outer => exact registered.markColor innermost name color

theorem registered_bindName {bound : Context} {cursor : Cursor}
    (binds : context.bindName cursor index name = .ok bound) : bound.session.Registered := by
  cases binds_of_bindName binds with
  | plain plain => exact registered_mark registered _ _ _
  | @body hygiene hygienic body => exact registered_mark (registered.claimColor hygiene) _ _ _
  | invocation hygienic invocation => exact registered_mark registered _ _ _

/-- A macro that a parser finds is registered. -/
theorem lt_of_findMacro? {macroId : MacroId}
    (found : context.findMacro? index name = .ok (some macroId)) :
    macroId < context.session.macros.size := by
  rcases exists_of_findMacro? found with ⟨stack, seen, -⟩
  exact registered.findMacro? seen

end Context

/-- The calls among places are calls of registered macros. -/
def CallsRegistered (session : Session) (places : List Place) : Prop :=
  ∀ index call, (index, Leaf.call call) ∈ places → call.Registered session

/-- A step keeps macros registered, and the call it reads is one of them. -/
theorem Step.registered (step : Step reader places after)
    (registered : reader.context.session.Registered) :
    after.context.session.Registered ∧ CallsRegistered after.context.session places := by
  cases step with
  | move forward => exact ⟨registered, by simp [CallsRegistered]⟩
  | binding isName binds colored =>
    exact ⟨Context.registered_bindName registered binds, by simp [CallsRegistered]⟩
  | reference isName colored => exact ⟨registered, by simp [CallsRegistered]⟩
  | call isName found taken fixed forward behind =>
    constructor
    · exact registered
    · intro index call mem
      simp only [List.mem_singleton, Prod.mk.injEq, Leaf.call.injEq] at mem
      rcases mem with ⟨-, rfl⟩
      exact Context.lt_of_findMacro? registered found
  | declaration forward inside templates written =>
    constructor
    · exact (Context.registered_mark registered _ _ _).declareMacro _ _
    · simp [CallsRegistered]
  | abandoned forward =>
    exact ⟨Context.registered_mark registered _ _ _, by simp [CallsRegistered]⟩

/-- A walk keeps macros registered, and the calls it reads are calls of registered ones. -/
theorem Walk.registered (walk : Walk reader places after) (nonempty : reader.context.scopes ≠ [])
    (registered : reader.context.session.Registered) :
    after.context.session.Registered ∧ CallsRegistered after.context.session places := by
  induction walk with
  | nil reader => exact ⟨registered, by simp [CallsRegistered]⟩
  | step step => exact step.registered registered
  | append one two first second =>
    have middleNonempty := (one.advances nonempty).scopes ▸ nonempty
    rcases first nonempty registered with ⟨middleRegistered, early⟩
    rcases second middleNonempty middleRegistered with ⟨afterRegistered, late⟩
    have grows := (two.advances middleNonempty).grows
    constructor
    · exact afterRegistered
    · intro index call mem
      rcases List.mem_append.mp mem with inFirst | inSecond
      · exact (early index call inFirst).grows grows
      · exact late index call inSecond
  | enclosed inner ih =>
    rw [Reader.exit, Context.exitScope_session]
    exact ih (List.cons_ne_nil _ _) registered.allocScope

/-- A walk that begins in a session keeps its macros registered. -/
theorem Walk.registered_of_session {session : Session} {tokens : List Token} {outer : ScopeStack}
    {hygiene : Option Hygiene} {final : Reader}
    (walk : Walk (session.reader tokens outer hygiene) places final)
    (registered : session.Registered) :
    final.context.session.Registered ∧ CallsRegistered final.context.session places :=
  walk.registered Session.fresh_reader.nonempty registered.allocScope

end Grammar

/-- A source leaves macros registered, and its calls are calls of registered ones. -/
theorem Session.registered_readProgram {source : String} {program : Program}
    (registered : session.Registered) (run : readProgram source session = .ok program after) :
    after.Registered ∧ ∀ call ∈ Leaf.calls (Leaf.ofProgram program), call.Registered after := by
  rcases readProgram_eq_ok run with ⟨tokens, places, final, -, walk, seen, rfl⟩
  rcases walk.registered_of_session registered with ⟨finalRegistered, calls⟩
  constructor
  · exact finalRegistered
  · intro call mem
    rw [Leaf.mem_calls, seen, List.mem_map] at mem
    rcases mem with ⟨⟨index, leaf⟩, placeMem, rfl⟩
    exact calls index call placeMem

/-- Trying parsers on arguments leaves macros registered. -/
theorem Matching.Tried.registered (tried : Tried call before after)
    (registered : before.Registered) : after.Registered := by
  induction tried with
  | refl => exact registered
  | attempt _ _ walk _ ih => exact ih (walk.registered_of_session registered).1

/-! ## Settled computations -/

/-- A fault that blames the source or a macro, not the compiler. -/
def Fault.External (fault : Fault) : Prop :=
  fault.cause.kind ≠ .internal

namespace Fault.External

variable {fault : Fault}

theorem malformed (span : Span) (problem : SourceProblem) :
    (Fault.malformed span problem).External := by
  simp [External, Fault.malformed, Cause.kind]

theorem expansion (name : String) (span : Span) (problem : ExpansionProblem) :
    (Fault.expansion name span problem).External := by
  simp [External, Fault.expansion, Cause.kind]

theorem of_malformed (malformed : fault.cause.kind = .malformed) : fault.External := by
  simp [External, malformed]

/-- Naming the expansion that was read does not change who is to blame. -/
theorem whileExpanding (external : fault.External) (name : String) (span : Span) :
    (fault.whileExpanding name span).External := by
  unfold Fault.whileExpanding
  split
  · exact external
  · exact external

end Fault.External

/-- The outcome of a computation that began in the given session: a later session in which
macros are registered and `post` holds of the value, or a fault that does not blame the
compiler. -/
inductive Settled {α : Type} (session : Session) (post : α → Session → Prop) :
    EStateM.Result Fault Session α → Prop
  | ok {value : α} {after : Session} (registered : after.Registered)
      (grows : session.Grows after) (holds : post value after) :
      Settled session post (.ok value after)
  | error {fault : Fault} {after : Session} (external : fault.External) :
      Settled session post (.error fault after)

namespace Settled

variable {α β : Type} {post : α → Session → Prop} {later : β → Session → Prop}

protected theorem bind {action : SessionM α} {next : α → SessionM β}
    (first : Settled session post (action session))
    (second : ∀ value after, after.Registered → session.Grows after → post value after →
      Settled after later (next value after)) :
    Settled session later ((action >>= next) session) := by
  simp only [bind, EStateM.bind]
  generalize action session = result at first ⊢
  cases first with
  | error external => exact .error external
  | @ok value middle registered grows holds =>
    have rest := second value middle registered grows holds
    dsimp only
    generalize next value middle = last at rest ⊢
    cases rest with
    | error external => exact .error external
    | ok lastRegistered lastGrows lastHolds =>
      exact .ok lastRegistered (grows.trans lastGrows) lastHolds

protected theorem pure {value : α} (registered : session.Registered)
    (holds : post value session) : Settled session post ((pure value : SessionM α) session) :=
  .ok registered (.refl session) holds

theorem throw {fault : Fault} (external : fault.External) :
    Settled session post ((throw fault : SessionM α) session) :=
  .error external

end Settled

end MacroScript
