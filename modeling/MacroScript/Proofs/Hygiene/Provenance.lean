import MacroScript.Proofs.Hygiene.Run

/-!
# Where colors come from

A unit that is compiled has scopes and macros of its own: those that are made after it
begins to be read.  Names are looked up in these scopes only, so whatever colors other
units have left in the session are never seen.

Each color that a name gets can therefore be traced to an expansion of the unit.  It is
the color of an expansion whose body binds that name.
-/

namespace MacroScript

open MacroScript.Grammar

variable {region : Region} {color : Option Color} {name : String}

/-! ## Regions -/

/-- The scopes and macros of a unit, given by the first of them, and the colors that names may
have in it. -/
structure Region where
  scope : ScopeId
  macroId : MacroId
  colors : String → Color → Prop

namespace Region

/-- A name may have the color, if it is one. -/
def Allows (region : Region) (name : String) (color : Option Color) : Prop :=
  ∀ given, color = some given → region.colors name given

theorem allows_none (region : Region) (name : String) : region.Allows name none := by
  intro given impossible
  cases impossible

/-- The same scopes and macros, with more colors. -/
structure Extends (region larger : Region) : Prop where
  scope : larger.scope = region.scope
  macroId : larger.macroId = region.macroId
  colors {name : String} {color : Color} (allowed : region.colors name color) :
    larger.colors name color

theorem Allows.extends {region larger : Region} (wider : region.Extends larger)
    (allows : region.Allows name color) : larger.Allows name color :=
  fun given isGiven => wider.colors (allows given isGiven)

end Region

/-- The macro belongs to the region: its scopes do, and its tokens have colors of the region. -/
structure MacroDef.Confined (region : Region) (definition : MacroDef) : Prop where
  scopes : ∀ id ∈ definition.scopes, region.scope ≤ id
  templates : ∀ rule ∈ definition.rules, ∀ token ∈ rule.template,
    region.Allows token.text token.color

/-- The scopes of the region have colors and macros of the region only, and its macros belong
to it. -/
structure Session.Confined (region : Region) (session : Session) : Prop where
  scopes_le : region.scope ≤ session.scopes.size
  macros_le : region.macroId ≤ session.macros.size
  marks {id : ScopeId} {scope : Scope} (inside : region.scope ≤ id)
    (found : session.scopes.get? id = some scope) :
    ∀ entry ∈ scope.colors, region.Allows entry.1 entry.2
  targets {id : ScopeId} {scope : Scope} (inside : region.scope ≤ id)
    (found : session.scopes.get? id = some scope) :
    ∀ entry ∈ scope.macros, region.macroId ≤ entry.2
  declared {id : MacroId} {definition : MacroDef} (inside : region.macroId ≤ id)
    (found : session.macros.get? id = some definition) : definition.Confined region

/-- The call belongs to the region. -/
structure Invocation.Confined (region : Region) (call : Invocation) : Prop where
  macroId : region.macroId ≤ call.macroId
  scopes : ∀ id ∈ call.scopes, region.scope ≤ id
  tokens : ∀ token ∈ call.tokens, region.Allows token.text token.color

/-- A name that was changed has a color of the region. -/
def Identifier.Confined (region : Region) (identifier : Identifier) : Prop :=
  ∀ source, identifier.sourceName = some source →
    ∃ color, identifier.name = source ++ "_" ++ toString color ∧ region.colors source color

/-- Names and calls of the region. -/
def Leaf.Confined (region : Region) : Leaf → Prop
  | .binding identifier => identifier.Confined region
  | .reference identifier => identifier.Confined region
  | .call invocation => invocation.Confined region
  | .declaration _ => True

section Extends

variable {larger : Region}

theorem MacroDef.Confined.extends {definition : MacroDef} (confined : definition.Confined region)
    (wider : region.Extends larger) : definition.Confined larger where
  scopes id mem := wider.scope ▸ confined.scopes id mem
  templates rule ruleMem token mem := (confined.templates rule ruleMem token mem).extends wider

theorem Session.Confined.extends {session : Session} (confined : session.Confined region)
    (wider : region.Extends larger) : session.Confined larger where
  scopes_le := wider.scope ▸ confined.scopes_le
  macros_le := wider.macroId ▸ confined.macros_le
  marks inside found entry mem :=
    (confined.marks (wider.scope ▸ inside) found entry mem).extends wider
  targets inside found entry mem :=
    wider.macroId ▸ confined.targets (wider.scope ▸ inside) found entry mem
  declared inside found := (confined.declared (wider.macroId ▸ inside) found).extends wider

theorem Invocation.Confined.extends {call : Invocation} (confined : call.Confined region)
    (wider : region.Extends larger) : call.Confined larger where
  macroId := wider.macroId ▸ confined.macroId
  scopes id mem := wider.scope ▸ confined.scopes id mem
  tokens token mem := (confined.tokens token mem).extends wider

theorem Leaf.Confined.extends {leaf : Leaf} (confined : leaf.Confined region)
    (wider : region.Extends larger) : leaf.Confined larger := by
  have names : ∀ identifier : Identifier, identifier.Confined region →
      identifier.Confined larger := by
    intro identifier known source renamed
    rcases known source renamed with ⟨color, name_eq, allowed⟩
    exact ⟨color, name_eq, wider.colors allowed⟩
  cases leaf with
  | binding identifier
  | reference identifier => exact names identifier confined
  | call invocation => exact Invocation.Confined.extends confined wider
  | declaration declared => trivial

end Extends

/-- A name with a color of the region. -/
theorem Region.Allows.confined {token : Token} (allows : region.Allows token.text color) :
    (token.identifier.applyColor? color).Confined region := by
  intro source renamed
  cases color with
  | none => cases renamed
  | some given =>
    cases renamed
    exact ⟨given, rfl, allows given rfl⟩

/-! ## Sessions -/

namespace Session.Confined

variable {session : Session} {stack : ScopeStack} (confined : session.Confined region)
include confined

theorem allocScope : session.allocScope.Confined region := by
  have size : session.allocScope.scopes.size = session.scopes.size + 1 :=
    ScopeStore.size_alloc _
  refine ⟨?_, confined.macros_le, ?_, ?_, confined.declared⟩
  · rw [size]
    exact Nat.le_succ_of_le confined.scopes_le
  · intro id scope inside found
    rcases ScopeStore.known_of_alloc found with old | ⟨-, rfl⟩
    · exact confined.marks inside old
    · simp
  · intro id scope inside found
    rcases ScopeStore.known_of_alloc found with old | ⟨-, rfl⟩
    · exact confined.targets inside old
    · simp

/-- Changing a scope keeps a session confined, if the new entries belong to the region. -/
theorem modify {id : ScopeId} {change : Scope → Scope}
    (marks : ∀ scope, ∀ entry ∈ (change scope).colors,
      entry ∈ scope.colors ∨ region.Allows entry.1 entry.2)
    (targets : ∀ scope, ∀ entry ∈ (change scope).macros,
      entry ∈ scope.macros ∨ region.macroId ≤ entry.2) :
    Confined region { session with scopes := session.scopes.modify id change } := by
  refine ⟨?_, confined.macros_le, ?_, ?_, confined.declared⟩
  · rw [ScopeStore.size_modify]
    exact confined.scopes_le
  · intro other scope inside found entry mem
    rcases ScopeStore.known_of_modify found with ⟨former, formerFound, rfl | ⟨-, rfl⟩⟩
    · exact confined.marks inside formerFound entry mem
    · rcases marks former entry mem with old | new
      · exact confined.marks inside formerFound entry old
      · exact new
  · intro other scope inside found entry mem
    rcases ScopeStore.known_of_modify found with ⟨former, formerFound, rfl | ⟨-, rfl⟩⟩
    · exact confined.targets inside formerFound entry mem
    · rcases targets former entry mem with old | new
      · exact confined.targets inside formerFound entry old
      · exact new

theorem markColor (id : ScopeId) (allows : region.Allows name color) :
    (session.markColor id name color).Confined region := by
  apply confined.modify
  · intro scope entry mem
    rcases List.mem_cons.mp mem with rfl | kept
    · exact .inr allows
    · exact .inl (List.mem_filter.mp kept).1
  · intro scope entry mem
    exact .inl mem

theorem claimColor (hygiene : Hygiene) : (session.claimColor hygiene).2.2.Confined region := by
  unfold Session.claimColor
  split
  · exact confined
  · exact ⟨confined.scopes_le, confined.macros_le, confined.marks, confined.targets,
      confined.declared⟩

theorem declareMacro (id : ScopeId) {definition : MacroDef} (known : definition.Confined region) :
    (session.declareMacro id definition).Confined region := by
  have bound : Confined region
      { session with
        scopes := session.scopes.bindMacro id definition.name session.macros.size } := by
    apply confined.modify
    · intro scope entry mem
      exact .inl mem
    · intro scope entry mem
      rcases List.mem_cons.mp mem with rfl | kept
      · exact .inr confined.macros_le
      · exact .inl (List.mem_filter.mp kept).1
  refine ⟨bound.scopes_le, ?_, bound.marks, bound.targets, ?_⟩
  · rw [Session.declareMacro, Registry.size_add]
    exact Nat.le_succ_of_le confined.macros_le
  · intro other declared inside found
    rcases Registry.known_of_add found with old | rfl
    · exact confined.declared inside old
    · exact known

/-- A color that is found in scopes of the region belongs to the region. -/
theorem findColor? (inside : ∀ id ∈ stack, region.scope ≤ id) (name : String) :
    region.Allows name (session.scopes.findColor? stack name) := by
  rcases session.scopes.mem_of_findColor? stack name with none | ⟨id, mem, scope, known, entry⟩
  · exact none ▸ region.allows_none name
  · exact confined.marks (inside id mem) known _ entry

/-- A macro that is found in scopes of the region belongs to the region. -/
theorem findMacro? (inside : ∀ id ∈ stack, region.scope ≤ id) {macroId : MacroId}
    (found : session.scopes.findMacro? stack name = some macroId) : region.macroId ≤ macroId := by
  rcases ScopeStore.mem_of_findMacro? found with ⟨id, mem, scope, known, entry⟩
  exact confined.targets (inside id mem) known _ entry

end Session.Confined

/-! ## Parsers -/

namespace Grammar

variable {reader after : Reader} {places : List Place}

/-- A parser in a confined session, whose scopes and tokens belong to the region. -/
structure Reader.Confined (region : Region) (reader : Reader) : Prop where
  session : reader.context.session.Confined region
  scopes : ∀ id ∈ reader.context.scopes, region.scope ≤ id
  tokens : ∀ token ∈ reader.cursor.tokens, region.Allows token.text token.color
  hygiene {hygiene : Hygiene} (hygienic : reader.context.hygiene = some hygiene)
    (origin : Origin) : ∀ id ∈ hygiene.scopes origin, region.scope ≤ id

/-- The region allows the color of the expansion for the names that its body has bound. -/
def Owned (region : Region) (reader : Reader) (places : List Place) : Prop :=
  ∀ hygiene color, reader.context.hygiene = some hygiene → hygiene.color = some color →
    ∀ index identifier, (index, Leaf.binding identifier) ∈ places →
      hygiene.origins[index]? = some .body →
        region.colors (reader.cursor.tokenAt index).text color

/-- What is owned at the end was owned before. -/
theorem Owned.before {first second : List Place} (owned : Owned region after (first ++ second))
    (forward : reader.cursor.Forward after.cursor)
    (advances : reader.context.Advances after.context) : Owned region reader first := by
  intro hygiene color hygienic claimed index identifier mem body
  rw [← forward.tokenAt]
  have kept : after.context.hygiene = some hygiene := by
    have claims := advances.claims
    rw [hygienic] at claims
    generalize after.context.hygiene = last, after.context.session.lastColor = high at claims
    cases claims with
    | keep => rfl
    | claim free => cases free.symm.trans claimed
  exact owned hygiene color kept claimed index identifier (List.mem_append_left _ mem) body

namespace Reader.Confined

variable {cursor : Cursor} {context : Context} {index : Nat}

section

variable (confined : Confined region ⟨cursor, context⟩)
include confined

theorem tokenAt (inside : index < cursor.tokens.size) :
    region.Allows (cursor.tokenAt index).text (cursor.tokenAt index).color :=
  confined.tokens _ (Cursor.tokenAt_mem inside)

/-- The color of a name belongs to the region. -/
theorem tokenColor (inside : index < cursor.tokens.size)
    (colored : context.tokenColor cursor index (cursor.tokenAt index).text = .ok color) :
    region.Allows (cursor.tokenAt index).text color := by
  cases Context.colors_of_tokenColor colored with
  | plain plain => exact region.allows_none _
  | body hygienic body => exact confined.session.findColor? (confined.hygiene hygienic .body) _
  | invocation hygienic invocation => exact confined.tokenAt inside

/-- A macro that a parser finds belongs to the region. -/
theorem findMacro? {macroId : MacroId}
    (found : context.findMacro? index name = .ok (some macroId)) : region.macroId ≤ macroId := by
  rcases Context.exists_of_findMacro? found with ⟨stack, seen, rfl | ⟨hygiene, origin, known, rfl⟩⟩
  · exact confined.session.findMacro? confined.scopes seen
  · exact confined.session.findMacro? (confined.hygiene known origin) seen

/-- The arguments of a call have colors of the region. -/
theorem captureColors {start : Nat} {captured fixed rest : List Token}
    (taken : cursor.tokens.toList.drop start = captured ++ rest)
    (run : context.captureColors cursor start captured = .ok fixed) :
    ∀ token ∈ fixed, region.Allows token.text token.color := by
  intro token mem
  rcases List.mem_iff_getElem?.mp mem with ⟨offset, found⟩
  rcases Context.handed_of_captureColors taken run found with ⟨⟨inside, -⟩, ⟨-, rfl⟩ | handed⟩
  · exact confined.tokenAt inside
  · cases handed with
    | other other => exact confined.tokenAt inside
    | name isName ordinary colored => exact confined.tokenColor inside colored

end

/-- The parser stays confined while only its session changes and its hygiene is claimed. -/
theorem advances {reader after : Reader} (confined : reader.Confined region)
    (session : after.context.session.Confined region)
    (advances : reader.context.Advances after.context)
    (tokens : after.cursor.tokens = reader.cursor.tokens) : after.Confined region where
  session := session
  scopes := advances.scopes ▸ confined.scopes
  tokens := tokens ▸ confined.tokens
  hygiene {last} hygienic origin := by
    have claims := advances.claims
    rw [hygienic] at claims
    generalize before_eq : reader.context.hygiene = before, reader.context.session.lastColor = low,
      after.context.session.lastColor = high at claims
    cases claims with
    | keep => exact confined.hygiene before_eq origin
    | claim free =>
      have known := confined.hygiene before_eq origin
      cases origin with
      | body
      | invocation => exact known

end Reader.Confined

theorem Context.confined_mark {context : Context} (confined : context.session.Confined region)
    (stack : ScopeStack) (allows : region.Allows name color) :
    (context.mark stack name color).session.Confined region := by
  cases stack with
  | nil => exact confined
  | cons innermost outer => exact confined.markColor innermost allows

/-- A step of a confined parser leads to a confined parser, and what it reads belongs to the
region. -/
theorem Step.confined (step : Step reader places after) (ready : reader.cursor.Ready)
    (confined : reader.Confined region) (owned : Owned region after places) :
    after.Confined region ∧ ∀ place ∈ places, place.2.Confined region := by
  have advances := step.advances
  have tokens := (step.forward ready).tokens
  cases step with
  | move forward => exact ⟨confined.advances confined.session advances tokens, by simp⟩
  | @binding cursor context bound color isName binds colored =>
    have inside := ready.lt_of_isName isName
    have boundSession : bound.session.Confined region := by
      cases Context.binds_of_bindName binds with
      | plain plain => exact Context.confined_mark confined.session _ (region.allows_none _)
      | @body hygiene hygienic body =>
        have own : region.Allows cursor.peek.text
            (some (context.session.claimColor hygiene).1) := by
          rintro given ⟨⟩
          have claimed := owned _ _ (Context.bindBody_hygiene context hygiene cursor.peek.text)
            rfl cursor.index _ List.mem_cons_self body
          rw [(ready.forward_advance).tokenAt] at claimed
          exact claimed
        exact Context.confined_mark (confined.session.claimColor hygiene) _ own
      | invocation hygienic invocation =>
        exact Context.confined_mark confined.session _ (confined.tokenAt inside)
    refine ⟨confined.advances boundSession advances tokens, ?_⟩
    intro place mem
    rw [List.mem_singleton.mp mem]
    have boundConfined : Reader.Confined region ⟨cursor, bound⟩ :=
      confined.advances boundSession advances rfl
    exact Region.Allows.confined (boundConfined.tokenColor inside colored)
  | reference isName colored =>
    refine ⟨confined.advances confined.session advances tokens, ?_⟩
    intro place mem
    rw [List.mem_singleton.mp mem]
    exact Region.Allows.confined (confined.tokenColor (ready.lt_of_isName isName) colored)
  | call isName found taken fixed forward behind =>
    refine ⟨confined.advances confined.session advances tokens, ?_⟩
    intro place mem
    rw [List.mem_singleton.mp mem]
    exact ⟨confined.findMacro? found, confined.scopes, confined.captureColors taken fixed⟩
  | @declaration cursor next context name rules forward inside templates written =>
    refine ⟨confined.advances ?_ advances tokens, ?_⟩
    · have marked : Reader.Confined region
          ⟨cursor, context.mark context.scopes name.name none⟩ :=
        confined.advances (Context.confined_mark confined.session _ (region.allows_none _))
          (.mark _ _ _ _) rfl
      apply marked.session.declareMacro
      constructor
      · exact marked.scopes
      · intro rule ruleMem token tokenMem
        exact marked.tokens token (templates rule ruleMem token tokenMem)
    · intro place mem
      rw [List.mem_singleton.mp mem]
      trivial
  | abandoned forward =>
    exact ⟨confined.advances (Context.confined_mark confined.session _ (region.allows_none _))
      advances tokens, by simp⟩

/-- A walk of a confined parser leads to a confined parser, and what it reads belongs to the
region. -/
theorem Walk.confined (walk : Walk reader places after) (ready : reader.cursor.Ready)
    (nonempty : reader.context.scopes ≠ []) (confined : reader.Confined region)
    (owned : Owned region after places) :
    after.Confined region ∧ ∀ place ∈ places, place.2.Confined region := by
  induction walk with
  | nil reader => exact ⟨confined, by simp⟩
  | step step => exact step.confined ready confined owned
  | append one two first second =>
    have forward := one.forward ready
    have middleReady := forward.ready ready
    have middleNonempty := (one.advances nonempty).scopes ▸ nonempty
    have firstOwned := owned.before (two.forward middleReady) (two.advances middleNonempty)
    rcases first ready nonempty confined firstOwned with ⟨middleConfined, early⟩
    have secondOwned : Owned region _ _ :=
      fun hygiene color hygienic claimed index identifier mem =>
        owned hygiene color hygienic claimed index identifier (List.mem_append_right _ mem)
    rcases second middleReady middleNonempty middleConfined secondOwned with
      ⟨afterConfined, late⟩
    constructor
    · exact afterConfined
    · intro place mem
      rcases List.mem_append.mp mem with inFirst | inSecond
      · exact early place inFirst
      · exact late place inSecond
  | @enclosed reader after places inner ih =>
    have enterConfined : reader.enter.Confined region := by
      refine ⟨confined.session.allocScope, ?_, confined.tokens, confined.hygiene⟩
      intro id mem
      rcases List.mem_cons.mp mem with rfl | outer
      · exact confined.session.scopes_le
      · exact confined.scopes id outer
    have exitOwned : Owned region after places := by
      intro hygiene color hygienic claimed
      exact owned hygiene color ((Context.exitScope_hygiene _).trans hygienic) claimed
    rcases ih ready (List.cons_ne_nil _ _) enterConfined exitOwned with ⟨afterConfined, seen⟩
    have advances := (Walk.enclosed inner).advances nonempty
    have exitSession : after.exit.context.session.Confined region := by
      rw [Reader.exit, Context.exitScope_session]
      exact afterConfined.session
    exact ⟨confined.advances exitSession advances (inner.forward ready).tokens, seen⟩

/-- Without hygiene nothing is owned. -/
theorem owned_of_plain (plain : reader.context.hygiene = none) : Owned region reader places := by
  intro hygiene color hygienic
  cases plain.symm.trans hygienic

end Grammar

/-- A parser that begins to read in a confined session is confined. -/
theorem Session.confined_reader {session : Session} {tokens : List Token} {outer : ScopeStack}
    {hygiene : Option Hygiene} (confined : session.Confined region)
    (allows : ∀ token ∈ tokens, region.Allows token.text token.color)
    (scopes : ∀ id ∈ outer, region.scope ≤ id) (origins : ∀ first, hygiene = some first →
      ∀ origin, ∀ id ∈ first.scopes origin, region.scope ≤ id) :
    (session.reader tokens outer hygiene).Confined region where
  session := confined.allocScope
  scopes := by
    intro id mem
    rcases List.mem_cons.mp mem with rfl | old
    · exact confined.scopes_le
    · exact scopes id old
  tokens token mem := allows token (tokens_reader_subset mem)
  hygiene hygienic origin := origins _ hygienic origin

/-- Matching the arguments of a call of the region keeps the session confined. -/
theorem Matching.Tried.confined {call : Invocation} {before after : Session}
    (tried : Tried call before after) (confined : before.Confined region)
    (known : call.Confined region) : after.Confined region := by
  induction tried with
  | refl session => exact confined
  | @attempt session after kind tokens places final inside _ walk _ ih =>
    have reads : (session.reader tokens call.scopes none).Confined region := by
      apply Session.confined_reader confined
      · intro token mem
        exact known.tokens token (inside token mem)
      · exact known.scopes
      · simp
    have plain : final.context.hygiene = none :=
      (walk.advances Session.fresh_reader.nonempty).claims.of_none.1
    exact ih (walk.confined Session.ready_reader Session.fresh_reader.nonempty reads
      (owned_of_plain plain)).1.session

/-! ## Expansions -/

namespace Performed

/-- The body of the macro binds the name, so that the expansion gives its color to it. -/
def Renames (performed : Performed) (name : String) (color : Color) : Prop :=
  performed.color = some color ∧ ∃ index identifier,
    (index, Leaf.binding identifier) ∈ performed.places ∧
      performed.origin? index = some .body ∧ (performed.tokens index).text = name

/-- An expansion in a confined session leads to a confined session, and what it produces belongs
to the region, if the region allows its color for the names that its body binds. -/
theorem confined {region : Region} (performed : Performed)
    (before : performed.before.Confined region) (known : performed.call.Confined region)
    (renames : ∀ {name color}, performed.Renames name color → region.colors name color) :
    performed.after.Confined region ∧
      ∀ leaf ∈ Leaf.ofProgram performed.program, leaf.Confined region := by
  rcases performed.matched_spec with ⟨tried, ruleMem, -⟩
  have definition := before.declared known.macroId performed.known
  have reads : (Expansion.readerOf performed.definition performed.call performed.transcript
      performed.matching).Confined region := by
    apply Session.confined_reader (tried.confined before known)
    · intro token mem
      rcases List.mem_map.mp mem with ⟨⟨placed, origin⟩, placedMem, rfl⟩
      have source := performed.placedFrom _ placedMem
      cases origin with
      | body => exact definition.templates _ ruleMem placed source
      | invocation =>
        rcases source with ⟨captured, newline, fromCall, placed_eq⟩
        obtain rfl : placed = { captured with newlineBefore := newline } := placed_eq
        rcases fromCall with tokenMem | ⟨text, place, -, rfl⟩
        · exact known.tokens captured tokenMem
        · exact region.allows_none _
    · exact definition.scopes
    · rintro _ ⟨⟩ origin
      cases origin with
      | body => exact definition.scopes
      | invocation => exact known.scopes
  have owned : Owned region performed.final performed.places := by
    intro hygiene color hygienic claimed index identifier mem body
    have forward := performed.walk.forward Session.ready_reader
    have same : hygiene = performed.hygiene :=
      Option.some.inj (hygienic.symm.trans performed.claims.1)
    rw [same] at claimed body
    rw [forward.tokenAt]
    exact renames ⟨claimed, index, identifier, mem, body, rfl⟩
  rcases performed.walk.confined Session.ready_reader Session.fresh_reader.nonempty reads owned with
    ⟨after, seen⟩
  constructor
  · exact after.session
  · intro leaf mem
    rw [performed.leaves, List.mem_map] at mem
    rcases mem with ⟨place, placeMem, rfl⟩
    exact seen place placeMem

end Performed

end MacroScript
