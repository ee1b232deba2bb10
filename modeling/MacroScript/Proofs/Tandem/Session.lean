import MacroScript.Proofs.Hygiene.Store
import MacroScript.Proofs.Mark
import MacroScript.Proofs.Reading.Naming
import MacroScript.Proofs.Renumbering

/-!
# Sessions that are alike

Two sessions are alike when the second has everything that the first has, under other
numbers: its scopes say the same about names, its macros are the same, and it gives out
the corresponding colors.  The second may have more than that, such as the scopes and
macros of units that were compiled before.

One name may be left out of the comparison.  Then no token that will be read again may
spell it.  A `Vocabulary` says which tokens may be read again, and so lets one follow tokens
from the source into templates, arguments and transcripts.
-/

namespace MacroScript

variable {v : Vocabulary} {r : Renumbering}

/-! ## Entries of scopes -/

namespace ScopeStore

/-- The macro that a scope gives to a name. -/
def macroIn? (store : ScopeStore) (id : ScopeId) (name : String) : Option MacroId :=
  (store.get? id).bind fun scope => scope.macros.lookup name

/-- The decision that a scope records for the color of a name. -/
def colorIn? (store : ScopeStore) (id : ScopeId) (name : String) : Option (Option Color) :=
  (store.get? id).bind fun scope => scope.colors.lookup name

variable (store : ScopeStore)

theorem findMacro?_eq (stack : ScopeStack) (name : String) :
    store.findMacro? stack name = stack.findSome? fun id => store.macroIn? id name :=
  rfl

theorem findColor?_eq (stack : ScopeStack) (name : String) :
    store.findColor? stack name = (stack.findSome? fun id => store.colorIn? id name).join :=
  rfl

theorem get?_eq_none_iff (id : ScopeId) : store.get? id = none ↔ store.size ≤ id := by
  simp [get?, size]

theorem get?_alloc_size : store.alloc.get? store.size = some {} := by
  simp [alloc, get?, size]

/-- A new scope has no entries, so allocating one changes none. -/
theorem bind_get?_alloc {β : Type} (id : ScopeId) (entry : Scope → Option β)
    (empty : entry {} = none) : (store.alloc.get? id).bind entry = (store.get? id).bind entry := by
  rcases Nat.lt_trichotomy id store.size with inside | rfl | outside
  · rw [get?_alloc_of_lt inside]
  · rw [get?_alloc_size, (get?_eq_none_iff store _).mpr (Nat.le_refl _)]
    exact empty
  · have beyond : store.alloc.size ≤ id := by
      rw [size_alloc]
      exact outside
    rw [(get?_eq_none_iff _ _).mpr beyond, (get?_eq_none_iff _ _).mpr (Nat.le_of_lt outside)]

@[simp]
theorem macroIn?_alloc (id : ScopeId) (name : String) :
    store.alloc.macroIn? id name = store.macroIn? id name :=
  store.bind_get?_alloc id _ rfl

@[simp]
theorem colorIn?_alloc (id : ScopeId) (name : String) :
    store.alloc.colorIn? id name = store.colorIn? id name :=
  store.bind_get?_alloc id _ rfl

/-- What changing one scope does to an entry. -/
theorem bind_get?_modify {β : Type} (id other : ScopeId) (change : Scope → Scope)
    (entry : Scope → Option β) :
    ((store.modify id change).get? other).bind entry =
      (store.get? other).bind fun scope =>
        if id = other then entry (change scope) else entry scope := by
  rw [get?_modify]
  by_cases same : id = other
  · simp only [same, if_true]
    cases store.get? other <;> rfl
  · simp only [same, if_false]

@[simp]
theorem macroIn?_markColor (id other : ScopeId) (name key : String) (color : Option Color) :
    (store.markColor id name color).macroIn? other key = store.macroIn? other key := by
  rw [macroIn?, markColor, bind_get?_modify]
  simp only [ite_self]
  rfl

@[simp]
theorem colorIn?_bindMacro (id other : ScopeId) (name key : String) (target : MacroId) :
    (store.bindMacro id name target).colorIn? other key = store.colorIn? other key := by
  rw [colorIn?, bindMacro, bind_get?_modify]
  simp only [ite_self]
  rfl

theorem bind_put {β : Type} {store : ScopeStore} {id other : ScopeId} {name key : String}
    (value : β) (entries : Scope → List (String × β)) :
    ((store.get? other).bind fun scope =>
        if id = other then (Scope.put name value (entries scope)).lookup key
        else (entries scope).lookup key) =
      if id = other ∧ name = key ∧ other < store.size then some value
      else (store.get? other).bind fun scope => (entries scope).lookup key := by
  by_cases inside : other < store.size
  · obtain ⟨scope, found⟩ := get?_isSome_of_lt inside
    by_cases same : id = other
    · by_cases named : name = key
      · simp [found, same, named, inside]
      · have different : key ≠ name := fun equal => named equal.symm
        simp [found, same, named, Scope.lookup_put_of_ne different]
    · simp [found, same]
  · simp [(get?_eq_none_iff store other).mpr (Nat.le_of_not_lt inside), inside]

theorem colorIn?_markColor (id other : ScopeId) (name key : String) (color : Option Color) :
    (store.markColor id name color).colorIn? other key =
      if id = other ∧ name = key ∧ other < store.size then some color
      else store.colorIn? other key := by
  rw [colorIn?, markColor, bind_get?_modify]
  exact bind_put color Scope.colors

theorem macroIn?_bindMacro (id other : ScopeId) (name key : String) (target : MacroId) :
    (store.bindMacro id name target).macroIn? other key =
      if id = other ∧ name = key ∧ other < store.size then some target
      else store.macroIn? other key := by
  rw [macroIn?, bindMacro, bind_get?_modify]
  exact bind_put target Scope.macros

end ScopeStore

/-! ## Vocabularies -/

/-- Which tokens may be read again, and the name that none of them spells, if one is left
out.  Colors and line marks have no part in it, and the parentheses around captured
expressions are always allowed. -/
structure Vocabulary where
  Admits : Token → Prop
  /-- The tokens that the names and literals of a tree may be made of. -/
  Shown : Token → Prop
  hidden : Option String
  shown {token : Token} (admitted : Admits token) : Shown token
  seen {token : Token} (admitted : Admits token) (isName : token.isName = true) :
    hidden ≠ some token.text
  recolored {token : Token} (admitted : Admits token) (color : Option Color) :
    Admits { token with color }
  replaced {token : Token} (admitted : Admits token) (newlineBefore : Bool) :
    Admits { token with newlineBefore }
  synthetic (text : String) (place : Token) : Admits (.synthetic text place)

/-- All tokens are of the vocabulary. -/
def Vocabulary.Covers (v : Vocabulary) (tokens : List Token) : Prop :=
  ∀ token ∈ tokens, v.Admits token

theorem Vocabulary.Covers.subset {tokens others : List Token} (covered : v.Covers tokens)
    (subset : ∀ token ∈ others, token ∈ tokens) : v.Covers others :=
  fun token mem => covered token (subset token mem)

/-- The name was made of a token that may be shown. -/
def Vocabulary.Names (v : Vocabulary) (name : Identifier) : Prop :=
  ∃ token color, v.Shown token ∧ token.isName = true ∧
    name = token.identifier.applyColor? color

/-- A name keeps its spelling when the colors stay. -/
theorem Renumbering.identifier_of_still (colors : r.colors = 0) (token : Token)
    (color : Option Color) :
    r.identifier (token.identifier.applyColor? color) = token.identifier.applyColor? color := by
  rw [Renumbering.identifier, Identifier.recolor_applyColor? rfl, color_of_still colors,
    Option.map_id]
  rfl

theorem Renumbering.identifier_of_names (colors : r.colors = 0) {name : Identifier}
    (names : v.Names name) : r.identifier name = name := by
  obtain ⟨token, color, _, _, rfl⟩ := names
  exact identifier_of_still colors token color

/-- What stands at the mark was made of tokens that may be shown, and what may be read again
is of the vocabulary. -/
def Vocabulary.Shows (v : Vocabulary) : Mark → Prop
  | .enter => True
  | .exit => True
  | .literal value =>
    ∃ token, v.Shown token ∧ token.kind ≠ .punct ∧ value.raw = token.text ∧
      value.span = token.span
  | .leaf (.binding name) => v.Names name
  | .leaf (.reference name) => v.Names name
  | .leaf (.call call) => v.Covers call.tokens
  | .leaf (.declaration _) => True

/-- Every template of the macro is of the vocabulary. -/
def MacroDef.Within (v : Vocabulary) (definition : MacroDef) : Prop :=
  ∀ rule ∈ definition.rules, v.Covers rule.template

/-! ## Sessions -/

/-- The second session has what the first has, under other numbers. -/
structure Session.Alike (r : Renumbering) (v : Vocabulary) (one two : Session) : Prop where
  based : r.base ≤ one.scopes.size
  size : two.scopes.size = r.scope one.scopes.size
  macroIn? (id : ScopeId) {name : String} (seen : v.hidden ≠ some name) :
    two.scopes.macroIn? (r.scope id) name = (one.scopes.macroIn? id name).map r.macroId
  colorIn? (id : ScopeId) {name : String} (seen : v.hidden ≠ some name) :
    two.scopes.colorIn? (r.scope id) name =
      (one.scopes.colorIn? id name).map (Option.map r.color)
  settled : r.floor ≤ one.macros.size
  registered : two.macros.size = r.macroId one.macros.size
  definition (id : MacroId) : two.macros.get? (r.macroId id) = (one.macros.get? id).map r.definition
  covered {id : MacroId} {definition : MacroDef} (found : one.macros.get? id = some definition) :
    definition.Within v
  lastColor : two.lastColor = r.color one.lastColor

theorem Registry.get?_eq_none_iff (registry : Registry) (id : MacroId) :
    registry.get? id = none ↔ registry.size ≤ id := by
  simp [get?, size]

/-- Different scopes have different numbers. -/
theorem Renumbering.scope_inj {id other : Nat} : r.scope id = r.scope other ↔ id = other := by
  unfold scope
  split <;> split <;> omega

theorem Renumbering.scope_of_le {id : ScopeId} (above : r.base ≤ id) : r.scope id = id + r.scopes :=
  if_neg (Nat.not_lt_of_le above)

namespace Session.Alike

variable {one two : Session} {name : String}
variable (alike : Alike r v one two)
include alike

/-- The second session has the scopes of the first one. -/
theorem scope_lt_size (id : Nat) : r.scope id < two.scopes.size ↔ id < one.scopes.size := by
  have based := alike.based
  rw [alike.size, Renumbering.scope_of_le based, Renumbering.scope]
  split <;> omega

theorem allocScope :
    Alike r v one.allocScope two.allocScope where
  based := by
    rw [Session.allocScope, ScopeStore.size_alloc]
    exact Nat.le_succ_of_le alike.based
  size := by
    rw [Session.allocScope, Session.allocScope, ScopeStore.size_alloc, ScopeStore.size_alloc,
      alike.size, Renumbering.scope_of_le alike.based,
      Renumbering.scope_of_le (Nat.le_succ_of_le alike.based)]
    exact Nat.add_right_comm _ _ _
  macroIn? id name seen := by
    simp only [Session.allocScope, ScopeStore.macroIn?_alloc]
    exact alike.macroIn? id seen
  colorIn? id name seen := by
    simp only [Session.allocScope, ScopeStore.colorIn?_alloc]
    exact alike.colorIn? id seen
  settled := alike.settled
  registered := alike.registered
  definition := alike.definition
  covered := alike.covered
  lastColor := alike.lastColor

theorem markColor (id : ScopeId) (name : String) (color : Option Color) :
    Alike r v (one.markColor id name color)
      (two.markColor (r.scope id) name (color.map r.color)) where
  based := by
    simp only [Session.markColor, ScopeStore.size_markColor]
    exact alike.based
  size := by
    simp only [Session.markColor, ScopeStore.size_markColor]
    exact alike.size
  macroIn? other key seen := by
    simp only [Session.markColor, ScopeStore.macroIn?_markColor]
    exact alike.macroIn? other seen
  colorIn? other key seen := by
    simp only [Session.markColor, ScopeStore.colorIn?_markColor, Renumbering.scope_inj,
      alike.scope_lt_size]
    split
    · rfl
    · exact alike.colorIn? other seen
  settled := alike.settled
  registered := alike.registered
  definition := alike.definition
  covered := alike.covered
  lastColor := alike.lastColor

theorem declareMacro (id : ScopeId) {definition : MacroDef} (covered : definition.Within v) :
    Alike r v (one.declareMacro id definition)
      (two.declareMacro (r.scope id) (r.definition definition)) where
  based := by
    simp only [Session.declareMacro, ScopeStore.size_bindMacro]
    exact alike.based
  size := by
    simp only [Session.declareMacro, ScopeStore.size_bindMacro]
    exact alike.size
  macroIn? other key seen := by
    have name : (r.definition definition).name = definition.name := rfl
    simp only [Session.declareMacro, ScopeStore.macroIn?_bindMacro, Renumbering.scope_inj,
      alike.scope_lt_size, name, alike.registered]
    split
    · rfl
    · exact alike.macroIn? other seen
  colorIn? other key seen := by
    simp only [Session.declareMacro, ScopeStore.colorIn?_bindMacro]
    exact alike.colorIn? other seen
  settled := by
    have grows : (one.declareMacro id definition).macros.size = one.macros.size + 1 :=
      Registry.size_add _ _
    have settled := alike.settled
    omega
  registered := by
    have settled := alike.settled
    have registered := alike.registered
    simp only [Session.declareMacro, Registry.size_add, Renumbering.macroId] at registered ⊢
    grind
  definition other := by
    have settled := alike.settled
    have last : r.macroId other = two.macros.size ↔ other = one.macros.size := by
      simp only [alike.registered, Renumbering.macroId]
      grind
    simp only [Session.declareMacro, Registry.get?_add, last, alike.definition]
    split <;> rfl
  covered := by
    intro other found foundHere
    rw [Session.declareMacro, Registry.get?_add] at foundHere
    split at foundHere
    · exact Option.some.inj foundHere ▸ covered
    · exact alike.covered foundHere
  lastColor := alike.lastColor

theorem nextColor :
    Alike r v one.nextColor two.nextColor where
  based := alike.based
  size := alike.size
  macroIn? := alike.macroIn?
  colorIn? := alike.colorIn?
  settled := alike.settled
  registered := alike.registered
  definition := alike.definition
  covered := alike.covered
  lastColor := by
    simp only [Session.nextColor, alike.lastColor, Renumbering.color]
    exact Nat.add_right_comm _ _ _

/-- The trace has no part in what sessions do. -/
theorem retrace (first second : Array TraceStep) :
    Alike r v { one with trace := first } { two with trace := second } where
  based := alike.based
  size := alike.size
  macroIn? := alike.macroIn?
  colorIn? := alike.colorIn?
  settled := alike.settled
  registered := alike.registered
  definition := alike.definition
  covered := alike.covered
  lastColor := alike.lastColor

theorem findMacro? (stack : ScopeStack) (seen : v.hidden ≠ some name) :
    two.scopes.findMacro? (stack.map r.scope) name =
      (one.scopes.findMacro? stack name).map r.macroId := by
  simp only [ScopeStore.findMacro?_eq]
  induction stack with
  | nil => rfl
  | cons id outer ih =>
    simp only [List.map_cons, List.findSome?_cons, alike.macroIn? id seen, ih]
    cases one.scopes.macroIn? id name <;> rfl

theorem findColor? (stack : ScopeStack) (seen : v.hidden ≠ some name) :
    two.scopes.findColor? (stack.map r.scope) name =
      (one.scopes.findColor? stack name).map r.color := by
  simp only [ScopeStore.findColor?_eq]
  induction stack with
  | nil => rfl
  | cons id outer ih =>
    simp only [List.map_cons, List.findSome?_cons, alike.colorIn? id seen]
    cases one.scopes.colorIn? id name with
    | none => exact ih
    | some decided => rfl

end Session.Alike

/-- A session without scopes and macros is found in every session with later numbers. -/
theorem Session.alike_of_unused (v : Vocabulary) (one two : Session) (scopes : one.scopes = {})
    (macros : one.macros = {}) (colors : Nat) (last : two.lastColor = one.lastColor + colors) :
    one.Alike { scopes := two.scopes.size, macros := two.macros.size, colors } v two := by
  have beyond (id : ScopeId) : two.scopes.get? (id + two.scopes.size) = none :=
    (ScopeStore.get?_eq_none_iff _ _).mpr (Nat.le_add_left _ _)
  have beyondToo (id : MacroId) : two.macros.get? (id + two.macros.size) = none :=
    (Registry.get?_eq_none_iff _ _).mpr (Nat.le_add_left _ _)
  have noScope (id : ScopeId) : one.scopes.get? id = none := by simp [scopes, ScopeStore.get?]
  have noMacro (id : MacroId) : one.macros.get? id = none := by simp [macros, Registry.get?]
  constructor
  case based => exact Nat.zero_le _
  case size =>
    rw [scopes]
    exact (Nat.zero_add _).symm
  case macroIn? =>
    intro id name _
    simp [ScopeStore.macroIn?, noScope, beyond, Renumbering.scope]
  case colorIn? =>
    intro id name _
    simp [ScopeStore.colorIn?, noScope, beyond, Renumbering.scope]
  case settled => exact Nat.zero_le _
  case registered =>
    rw [macros]
    exact (Nat.zero_add _).symm
  case definition =>
    intro id
    simp [noMacro, beyondToo, Renumbering.macroId]
  case covered =>
    intro id definition found
    rw [noMacro] at found
    cases found
  case lastColor => exact last

end MacroScript
