import MacroScript.Proofs.Hygiene.Resolution

/-!
# Sound sessions

In a sound session every macro knows the scopes of its declaration, and no color occurs
that was not given out.  A new session is sound, and parsers keep it so: the calls they
produce refer to scopes of the session and carry colors that were given out.
-/

namespace MacroScript

/-! ## Sessions and calls -/

/-- A stack of scopes of a store with the given size. -/
structure ScopeStack.Inside (size : Nat) (stack : ScopeStack) : Prop where
  nonempty : stack ≠ []
  inside {id : ScopeId} (mem : id ∈ stack) : id < size

theorem ScopeStack.Inside.mono {size larger : Nat} {stack : ScopeStack}
    (inside : ScopeStack.Inside size stack) (le : size ≤ larger) :
    ScopeStack.Inside larger stack :=
  ⟨inside.nonempty, fun mem => Nat.lt_of_lt_of_le (inside.inside mem) le⟩

/-- A color that was given out, or none. -/
def GivenOut (last : Color) (color : Option Color) : Prop :=
  ∀ given, color = some given → given ≤ last

namespace GivenOut

variable {last : Color}

theorem none {last : Color} : GivenOut last none := by
  intro given impossible
  cases impossible

theorem some_iff {given : Color} : GivenOut last (some given) ↔ given ≤ last := by
  simp [GivenOut]

theorem mono {later : Color} {color : Option Color} (givenOut : GivenOut last color)
    (le : last ≤ later) : GivenOut later color :=
  fun given eq => Nat.le_trans (givenOut given eq) le

end GivenOut

/-- Macros have scopes of the session, and colors were given out. -/
structure Session.Sound (session : Session) : Prop where
  scopes {id : MacroId} {definition : MacroDef}
    (found : session.macros.get? id = some definition) :
    ScopeStack.Inside session.scopes.size definition.scopes
  templates {id : MacroId} {definition : MacroDef}
    (found : session.macros.get? id = some definition) :
    ∀ rule ∈ definition.rules, ∀ token ∈ rule.template, GivenOut session.lastColor token.color
  marks {id : ScopeId} {scope : Scope} (found : session.scopes.get? id = some scope) :
    ∀ entry ∈ scope.colors, GivenOut session.lastColor entry.2

/-- A call from scopes of the session, with colors that were given out. -/
structure Invocation.Sound (call : Invocation) (session : Session) : Prop where
  scopes : ScopeStack.Inside session.scopes.size call.scopes
  tokens : ∀ token ∈ call.tokens, GivenOut session.lastColor token.color

theorem Invocation.Sound.grows {call : Invocation} {before after : Session}
    (sound : call.Sound before) (grows : before.Grows after) : call.Sound after where
  scopes := sound.scopes.mono grows.scopes
  tokens token mem := (sound.tokens token mem).mono grows.colors

namespace Session.Sound

variable {session : Session}

theorem empty : Sound {} where
  scopes found := by simp [Registry.get?] at found
  templates found := by simp [Registry.get?] at found
  marks found := by simp [ScopeStore.get?] at found

section

variable (sound : session.Sound)
include sound

theorem allocScope : session.allocScope.Sound where
  scopes found := (sound.scopes found).mono (Session.Grows.allocScope _).scopes
  templates found := sound.templates found
  marks {id scope} found := by
    rcases ScopeStore.known_of_alloc found with old | ⟨-, rfl⟩
    · exact sound.marks old
    · simp

/-- Changing the entries of one scope keeps a session sound, if the new entries are. -/
theorem modify {id : ScopeId} {change : Scope → Scope}
    (entries : ∀ scope, session.scopes.get? id = some scope →
      ∀ entry ∈ (change scope).colors, GivenOut session.lastColor entry.2) :
    Sound { session with scopes := session.scopes.modify id change } where
  scopes found := by
    rw [ScopeStore.size_modify]
    exact sound.scopes found
  templates found := sound.templates found
  marks {other scope} found := by
    obtain ⟨former, formerFound, rfl | ⟨rfl, rfl⟩⟩ := ScopeStore.known_of_modify found
    · exact sound.marks formerFound
    · exact entries former formerFound

theorem markColor (id : ScopeId) (name : String) {color : Option Color}
    (givenOut : GivenOut session.lastColor color) : (session.markColor id name color).Sound := by
  apply sound.modify
  intro scope found entry entryMem
  rcases List.mem_cons.mp entryMem with rfl | kept
  · exact givenOut
  · exact sound.marks found entry (List.mem_filter.mp kept).1

/-- Giving out more colors keeps a session sound. -/
theorem later {last : Color} (le : session.lastColor ≤ last) :
    Sound { session with lastColor := last } where
  scopes found := sound.scopes found
  templates found rule ruleMem token tokenMem :=
    (sound.templates found rule ruleMem token tokenMem).mono le
  marks found entry entryMem := (sound.marks found entry entryMem).mono le

theorem claimColor (hygiene : Hygiene) : (session.claimColor hygiene).2.2.Sound := by
  unfold Session.claimColor
  split
  · exact sound
  · exact sound.later (Nat.le_succ _)

theorem replay {decisions : List Decision}
    (givenOut : ∀ decision ∈ decisions, GivenOut session.lastColor decision.color) :
    Sound { session with scopes := session.scopes.replay decisions } := by
  induction decisions generalizing session with
  | nil => exact sound
  | cons decision rest ih =>
    obtain ⟨first, others⟩ := List.forall_mem_cons.mp givenOut
    have recorded : (session.markColor decision.scope decision.name decision.color).Sound :=
      sound.markColor _ _ first
    exact ih recorded others

theorem declareMacro (id : ScopeId) {definition : MacroDef}
    (scopes : ScopeStack.Inside session.scopes.size definition.scopes)
    (templates : ∀ rule ∈ definition.rules, ∀ token ∈ rule.template,
      GivenOut session.lastColor token.color) :
    (session.declareMacro id definition).Sound := by
  have bound : Sound
      { session with
        scopes := session.scopes.bindMacro id definition.name session.macros.size } := by
    apply sound.modify
    intro scope found entry entryMem
    exact sound.marks found entry entryMem
  refine ⟨?_, ?_, bound.marks⟩
  · intro other known found
    rcases Registry.known_of_add found with old | rfl
    · exact bound.scopes old
    · rw [Session.declareMacro, ScopeStore.size_bindMacro]
      exact scopes
  · intro other known found
    rcases Registry.known_of_add found with old | rfl
    · exact bound.templates old
    · exact templates

/-- Every color that is found was given out. -/
theorem findColor? (stack : ScopeStack) (name : String) :
    GivenOut session.lastColor (session.scopes.findColor? stack name) := by
  rcases session.scopes.mem_of_findColor? stack name with none | ⟨id, -, scope, known, mem⟩
  · exact none ▸ GivenOut.none
  · exact sound.marks known _ mem

end

end Session.Sound

namespace Grammar

variable {reader after : Reader} {places : List Place}

/-! ## Parsers -/

/-- A parser in a sound session whose scopes belong to the session, and whose tokens carry
colors that were given out. -/
structure Reader.Sound (reader : Reader) : Prop where
  session : reader.context.session.Sound
  scopes : ScopeStack.Inside reader.context.session.scopes.size reader.context.scopes
  tokens : ∀ token ∈ reader.cursor.tokens,
    GivenOut reader.context.session.lastColor token.color
  hygiene {hygiene : Hygiene} (hygienic : reader.context.hygiene = some hygiene) :
    GivenOut reader.context.session.lastColor hygiene.color

theorem Claims.givenOut {start : Option Hygiene} {low high : Color} {hygiene : Hygiene}
    (claims : Claims start low (some hygiene) high)
    (sound : ∀ {first : Hygiene}, start = some first → GivenOut low first.color) :
    GivenOut high hygiene.color := by
  cases claims with
  | keep => exact sound rfl
  | claim free => exact GivenOut.some_iff.mpr (Nat.le_refl _)

/-- A context keeps the scopes, the tokens and the claimed color of a sound parser. -/
theorem Reader.Sound.advances (sound : reader.Sound) (session : after.context.session.Sound)
    (advances : reader.context.Advances after.context)
    (tokens : after.cursor.tokens = reader.cursor.tokens) : after.Sound where
  session := session
  scopes := advances.scopes ▸ sound.scopes.mono advances.grows.scopes
  tokens := by
    intro token mem
    exact (sound.tokens token (tokens ▸ mem)).mono advances.grows.colors
  hygiene {hygiene} hygienic := by
    have claims := advances.claims
    rw [hygienic] at claims
    exact claims.givenOut sound.hygiene

namespace Context

variable {context : Context} {color : Option Color}
variable (sound : context.session.Sound)
include sound

theorem sound_mark (stack : ScopeStack) (name : String)
    (givenOut : GivenOut context.session.lastColor color) :
    (context.mark stack name color).session.Sound := by
  cases stack with
  | nil => exact sound
  | cons innermost outer => exact sound.markColor innermost name givenOut

theorem sound_bindBody {hygiene : Hygiene}
    (givenOut : GivenOut context.session.lastColor hygiene.color) (name : String) :
    (context.bindBody hygiene name).session.Sound := by
  have claimed : GivenOut (context.session.claimColor hygiene).2.2.lastColor
      (some (context.session.claimColor hygiene).1) := by
    rw [GivenOut.some_iff]
    unfold Session.claimColor
    split
    · rename_i color taken
      exact givenOut color taken
    · exact Nat.le_refl _
  exact sound_mark (sound.claimColor hygiene) _ name claimed

/-- The color of a token was given out, if the token's own color was. -/
theorem givenOut_tokenColor {cursor : Cursor} {index : Nat} {name : String}
    (carried : GivenOut context.session.lastColor (cursor.tokenAt index).color)
    (colored : context.tokenColor cursor index name = .ok color) :
    GivenOut context.session.lastColor color := by
  cases colors_of_tokenColor colored with
  | plain plain => exact GivenOut.none
  | body hygienic body => exact sound.findColor? _ _
  | invocation hygienic invocation => exact carried

end Context

/-- The tokens handed to a call carry colors that were given out. -/
theorem Reader.Sound.captureColors (sound : reader.Sound) {start : Nat}
    {captured fixed rest : List Token}
    (taken : reader.cursor.tokens.toList.drop start = captured ++ rest)
    (run : reader.context.captureColors reader.cursor start captured = .ok fixed) :
    ∀ token ∈ fixed, GivenOut reader.context.session.lastColor token.color := by
  intro token mem
  obtain ⟨offset, found⟩ := List.mem_iff_getElem?.mp mem
  obtain ⟨⟨inside, -⟩, handed⟩ := Context.handed_of_captureColors taken run found
  have carried := sound.tokens _ (Cursor.tokenAt_mem inside)
  rcases handed with ⟨-, rfl⟩ | handed
  · exact carried
  · cases handed with
    | other other => exact carried
    | name isName ordinary colored =>
      exact Context.givenOut_tokenColor sound.session carried colored

/-- The calls among places are sound in a session. -/
def CallsSound (session : Session) (places : List Place) : Prop :=
  ∀ index call, (index, Leaf.call call) ∈ places → call.Sound session

theorem CallsSound.grows {before after : Session} (sound : CallsSound before places)
    (grows : before.Grows after) : CallsSound after places :=
  fun index call mem => (sound index call mem).grows grows

theorem CallsSound.append {session : Session} {first second : List Place}
    (one : CallsSound session first) (two : CallsSound session second) :
    CallsSound session (first ++ second) := by
  intro index call mem
  rcases List.mem_append.mp mem with early | late
  · exact one index call early
  · exact two index call late

/-- A step of a sound parser leads to a sound parser, and the call it reads is sound. -/
theorem Step.sound (step : Step reader places after) (ready : reader.cursor.Ready)
    (sound : reader.Sound) : after.Sound ∧ CallsSound after.context.session places := by
  have advances := step.advances
  have tokens := (step.forward ready).tokens
  cases step with
  | move forward => exact ⟨sound.advances sound.session advances tokens, by simp [CallsSound]⟩
  | @binding cursor context bound color isName binds colored =>
    refine ⟨sound.advances ?_ advances tokens, by simp [CallsSound]⟩
    have carried := sound.tokens _ (Cursor.tokenAt_mem (ready.lt_of_isName isName))
    cases Context.binds_of_bindName binds with
    | plain plain => exact Context.sound_mark sound.session _ _ GivenOut.none
    | body hygienic body => exact Context.sound_bindBody sound.session (sound.hygiene hygienic) _
    | invocation hygienic invocation => exact Context.sound_mark sound.session _ _ carried
  | reference isName colored =>
    exact ⟨sound.advances sound.session advances tokens, by simp [CallsSound]⟩
  | call isName found taken fixed forward behind =>
    refine ⟨sound.advances sound.session advances tokens, ?_⟩
    intro index call mem
    simp only [List.mem_singleton, Prod.mk.injEq, Leaf.call.injEq] at mem
    obtain ⟨-, rfl⟩ := mem
    exact ⟨sound.scopes, sound.captureColors taken fixed⟩
  | @declaration cursor next context name rules forward inside templates written =>
    refine ⟨sound.advances ?_ advances tokens, by simp [CallsSound]⟩
    let marked : Reader := ⟨cursor, context.mark context.scopes name.name none⟩
    have markedSession : marked.context.session.Sound :=
      Context.sound_mark sound.session _ _ GivenOut.none
    have markedSound : marked.Sound := sound.advances markedSession (.mark _ _ _ _) rfl
    apply markedSound.session.declareMacro
    · exact markedSound.scopes
    · intro rule ruleMem token tokenMem
      exact markedSound.tokens token (templates rule ruleMem token tokenMem)
  | abandoned forward =>
    exact ⟨sound.advances (Context.sound_mark sound.session _ _ GivenOut.none) advances tokens,
      by simp [CallsSound]⟩

/-- A walk of a sound parser leads to a sound parser, and the calls it reads are sound. -/
theorem Walk.sound (walk : Walk reader places after) (ready : reader.cursor.Ready)
    (sound : reader.Sound) : after.Sound ∧ CallsSound after.context.session places := by
  induction walk with
  | nil reader => exact ⟨sound, by simp [CallsSound]⟩
  | step step => exact step.sound ready sound
  | append one two first second =>
    have forward := one.forward ready
    obtain ⟨middleSound, firstCalls⟩ := first ready sound
    obtain ⟨afterSound, secondCalls⟩ := second (forward.ready ready) middleSound
    have grows := (two.advances middleSound.scopes.nonempty).grows
    exact ⟨afterSound, (firstCalls.grows grows).append secondCalls⟩
  | @enclosed reader after places inner ih =>
    have enterSound : reader.enter.Sound := by
      have grows := Session.Grows.allocScope reader.context.session
      refine ⟨sound.session.allocScope, ⟨List.cons_ne_nil _ _, ?_⟩, sound.tokens, sound.hygiene⟩
      intro id mem
      rcases List.mem_cons.mp mem with rfl | outer
      · exact Nat.lt_of_lt_of_eq (Nat.lt_succ_self _) (ScopeStore.size_alloc _).symm
      · exact (sound.scopes.mono grows.scopes).inside outer
    obtain ⟨afterSound, calls⟩ := ih ready enterSound
    have advances := (Walk.enclosed inner).advances sound.scopes.nonempty
    have exitSession : after.exit.context.session.Sound := by
      rw [Reader.exit, Context.exitScope_session]
      exact afterSound.session
    refine ⟨sound.advances exitSession advances (inner.forward ready).tokens, ?_⟩
    rw [Reader.exit, Context.exitScope_session]
    exact calls

end Grammar

end MacroScript
