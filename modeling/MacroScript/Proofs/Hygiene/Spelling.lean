import MacroScript.Proofs.Hygiene.Reached
import MacroScript.Proofs.Hygiene.Written

/-!
# How the names of an expansion are spelled

One expansion has at most one color, and gets it exactly if its body binds a name.  The
bindings of the body are spelled with that color, which was never given out before.  The
names that come from the arguments are spelled as they were captured, whatever the scopes
record and the body binds, and are handed on as they are.

The name of a call says which macro is meant, and is no variable: it is spelled as its
token, without the color that the token may carry.
-/

namespace MacroScript

open MacroScript.Grammar MacroScript.Outcome

/-- The name that a token spells with a color. -/
def Token.colored (token : Token) (color : Option Color) : Identifier where
  name :=
    match color with
    | none => token.text
    | some color => token.text ++ "_" ++ toString color
  span := token.span
  sourceName := color.map fun _ => token.text

theorem Token.applyColor?_identifier (token : Token) (color : Option Color) :
    token.identifier.applyColor? color = token.colored color := by
  cases color <;> rfl

theorem Token.originalName_applyColor? (token : Token) (color : Option Color) :
    (token.identifier.applyColor? color).originalName = token.text := by
  cases color <;> rfl

namespace Grammar

variable {reader after : Reader} {places : List Place} {hygiene : Hygiene}

/-! ## The color of a walk -/

/-- A step that binds no name of the body claims no color. -/
theorem Step.hygiene_of_unbound (step : Step reader places after)
    (hygienic : reader.context.hygiene = some hygiene)
    (unbound : ∀ index identifier, (index, Leaf.binding identifier) ∈ places →
      hygiene.origins[index]? ≠ some .body) : after.context.hygiene = some hygiene := by
  cases step with
  | move forward => exact hygienic
  | @binding cursor context bound color isName binds colored =>
    cases Context.binds_of_bindName binds with
    | plain plain => cases plain.symm.trans hygienic
    | body bodyHygienic body =>
      obtain rfl := Option.some.inj (bodyHygienic.symm.trans hygienic)
      exact absurd body (unbound _ _ (List.mem_singleton_self _))
    | invocation _ invocation => exact (Context.mark_hygiene ..).trans hygienic
  | reference isName colored
  | call isName found taken fixed forward behind => exact hygienic
  | declaration forward inside templates written
  | abandoned forward => exact (Context.mark_hygiene ..).trans hygienic

/-- A parser that binds no name of the body claims no color. -/
theorem Walk.hygiene_of_unbound (walk : Walk reader places after)
    (hygienic : reader.context.hygiene = some hygiene)
    (unbound : ∀ index identifier, (index, Leaf.binding identifier) ∈ places →
      hygiene.origins[index]? ≠ some .body) : after.context.hygiene = some hygiene := by
  induction walk with
  | nil reader => exact hygienic
  | step step => exact step.hygiene_of_unbound hygienic unbound
  | append one two first second =>
    apply second (first hygienic _) _
    · intro index identifier mem
      exact unbound index identifier (List.mem_append_left _ mem)
    · intro index identifier mem
      exact unbound index identifier (List.mem_append_right _ mem)
  | enclosed inner ih => exact (Context.exitScope_hygiene _).trans (ih hygienic unbound)

/-! ## The names of calls -/

/-- A call is named as the token where it was read. -/
theorem Walk.name_of_call {tokens : Nat → Token} (walk : Walk reader places after)
    (ready : reader.cursor.Ready) (same : reader.cursor.tokenAt = tokens) {index : Nat}
    {call : Invocation} (mem : (index, Leaf.call call) ∈ places) :
    call.name = (tokens index).identifier ∧ (tokens index).isName = true := by
  induction walk with
  | nil reader => cases mem
  | step step =>
    subst same
    cases step with
    | move forward => cases mem
    | binding isName binds colored
    | reference isName colored => cases List.mem_singleton.mp mem
    | call isName found taken fixed forward behind =>
      cases List.mem_singleton.mp mem
      exact ⟨rfl, isName⟩
    | declaration forward inside templates written => cases List.mem_singleton.mp mem
    | abandoned forward => cases mem
  | append one two first second =>
    have forward := one.forward ready
    rcases List.mem_append.mp mem with early | late
    · exact first ready same early
    · exact second (forward.ready ready) ((funext forward.tokenAt).trans same) late
  | enclosed inner ih => exact ih ready same mem

end Grammar

namespace Performed

variable {performed : Performed}

/-- The token at an index was captured by the call, and may have been set on a new line. -/
def Captures (performed : Performed) (index : Nat) (token : Token) : Prop :=
  token ∈ performed.call.tokens ∧
    ∃ newline, performed.tokens index = { token with newlineBefore := newline }

/-- A name that was substituted is a token of the call. -/
theorem exists_captures {index : Nat} (read : index < performed.final.cursor.index)
    (isName : (performed.tokens index).isName = true)
    (invocation : performed.origin? index = some .invocation) :
    ∃ token, performed.Captures index token := by
  obtain ⟨token, newline, fromCall, token_eq⟩ := performed.captured_of_invocation read invocation
  rcases fromCall with captured | ⟨text, place, -, rfl⟩
  · exact ⟨token, captured, newline, token_eq⟩
  · rw [token_eq] at isName
    cases isName

/-- An expansion has a color exactly if its body binds a name. -/
theorem exists_color_iff :
    (∃ color, performed.color = some color) ↔
      ∃ index identifier, (index, Leaf.binding identifier) ∈ performed.places ∧
        performed.origin? index = some .body := by
  constructor
  · rintro ⟨color, claimed⟩
    by_contra unbound
    have kept := performed.walk.hygiene_of_unbound rfl fun index identifier mem body =>
      unbound ⟨index, identifier, mem, body⟩
    rw [Performed.color, kept] at claimed
    cases claimed
  · rintro ⟨index, identifier, mem, body⟩
    exact performed.exists_color mem body

/-- A color greater than every color that was given out before the expansion: than those that
the scopes record, and than those that the templates and the call carry. -/
structure Exceeds (performed : Performed) (color : Color) : Prop where
  last : performed.before.lastColor < color
  marks {id : ScopeId} {scope : Scope} (found : performed.before.scopes.get? id = some scope) :
    ∀ entry ∈ scope.colors, ∀ given, entry.2 = some given → given < color
  templates {id : MacroId} {definition : MacroDef}
    (found : performed.before.macros.get? id = some definition) :
    ∀ rule ∈ definition.rules, ∀ token ∈ rule.template, ∀ given, token.color = some given →
      given < color
  arguments : ∀ token ∈ performed.call.tokens, ∀ given, token.color = some given → given < color

/-- The color of an expansion is greater than every color before. -/
theorem exceeds (sound : performed.before.Sound) (callSound : performed.call.Sound performed.before)
    {color : Color} (color_eq : performed.color = some color) : performed.Exceeds color := by
  have last : performed.before.lastColor < color := by
    rcases performed.claims.2 with ⟨none, -⟩ | ⟨next, -⟩
    · cases none.symm.trans color_eq
    · rw [Option.some.inj (color_eq.symm.trans next)]
      exact Nat.lt_succ_self _
  have below : ∀ {carried : Option Color}, GivenOut performed.before.lastColor carried →
      ∀ given, carried = some given → given < color :=
    fun givenOut given carries => Nat.lt_of_le_of_lt (givenOut given carries) last
  exact
    { last
      marks := fun found entry mem => below (sound.marks found entry mem)
      templates := fun found rule ruleMem token mem =>
        below (sound.templates found rule ruleMem token mem)
      arguments := fun token mem => below (callSound.tokens token mem) }

/-- How the names of an expansion are spelled. -/
structure Spelled (performed : Performed) : Prop where
  /-- A binding or reference that was substituted is spelled as it was captured. -/
  captured {index : Nat} {leaf : Identifier → Leaf} {identifier : Identifier}
    (isName : leaf = .binding ∨ leaf = .reference)
    (mem : (index, leaf identifier) ∈ performed.places)
    (invocation : performed.origin? index = some .invocation) :
    ∃ token, performed.Captures index token ∧ identifier = token.colored token.color
  /-- A name that was substituted among the arguments of a call is handed on as it was
  captured. -/
  argument {index offset : Nat} {call : Invocation} {token : Token}
    (mem : (index, Leaf.call call) ∈ performed.places)
    (found : call.tokens[offset]? = some token) (isName : token.isName = true)
    (invocation : performed.origin? (index + 2 + offset) = some .invocation) :
    ∃ given, performed.Captures (index + 2 + offset) given ∧
      token = performed.tokens (index + 2 + offset) ∧ token.color = given.color
  /-- A call is named as its token, without a color. -/
  callee {index : Nat} {call : Invocation} (mem : (index, Leaf.call call) ∈ performed.places) :
    call.name = (performed.tokens index).colored none
  /-- A name that the body binds is spelled with the color of the expansion, which is greater
  than those given out before. -/
  bound {index : Nat} {identifier : Identifier}
    (mem : (index, Leaf.binding identifier) ∈ performed.places)
    (body : performed.origin? index = some .body) :
    ∃ color, performed.color = some color ∧ performed.Exceeds color ∧
      identifier = (performed.tokens index).colored (some color)
  /-- The expansion has a color exactly if its body binds a name. -/
  color_iff :
    (∃ color, performed.color = some color) ↔
      ∃ index identifier, (index, Leaf.binding identifier) ∈ performed.places ∧
        performed.origin? index = some .body

theorem spelled (sound : performed.before.Sound)
    (callSound : performed.call.Sound performed.before) : performed.Spelled where
  captured {index leaf identifier} isName mem invocation := by
    have inside := scopes_inside sound
    have made := performed.madeOf _ mem
    have carried : index < performed.final.cursor.index ∧
        (performed.tokens index).isName = true ∧
          identifier = (performed.tokens index).colored (performed.tokens index).color := by
      rcases isName with rfl | rfl
      · obtain ⟨read, isName, color, rfl⟩ := made.of_binding
        rcases performed.resolves inside mem (.binding index color) with ⟨body, -⟩ | ⟨-, rfl⟩
        · cases invocation.symm.trans body
        · exact ⟨read, isName, Token.applyColor?_identifier _ _⟩
      · obtain ⟨read, isName, color, rfl⟩ := made.of_reference
        rcases performed.resolves inside mem (.reference index color) with ⟨body, -⟩ | ⟨-, rfl⟩
        · cases invocation.symm.trans body
        · exact ⟨read, isName, Token.applyColor?_identifier _ _⟩
    obtain ⟨read, isName, identifier_eq⟩ := carried
    obtain ⟨token, captures⟩ := exists_captures read isName invocation
    obtain ⟨newline, token_eq⟩ := captures.2
    rw [token_eq] at identifier_eq
    exact ⟨token, captures, identifier_eq⟩
  argument {index offset call token} mem found isName invocation := by
    have token_eq := eq_of_captured (scopes_inside sound) mem found isName invocation
    have read : index + 2 + offset < performed.final.cursor.index := by
      cases performed.madeOf _ mem with
      | call arguments => exact (arguments offset token found).2.2
    obtain ⟨given, captures⟩ := exists_captures read (token_eq ▸ isName) invocation
    obtain ⟨newline, given_eq⟩ := captures.2
    exact ⟨given, captures, token_eq, by rw [token_eq, given_eq]⟩
  callee mem := (performed.walk.name_of_call Session.ready_reader rfl mem).1
  bound {index identifier} mem body := by
    obtain ⟨color, color_eq⟩ := performed.exists_color mem body
    refine ⟨color, color_eq, exceeds sound callSound color_eq, ?_⟩
    rw [binding_of_body sound mem body color_eq]
    exact Token.applyColor?_identifier _ (some color)
  color_iff := exists_color_iff

end Performed

/-- A call that was read in a reached session and expands does so with names that are spelled as
the origins of their tokens say. -/
theorem expand_spells_names {session after : Session} {calls : List Invocation}
    {call : Invocation} {expansion : Expansion} (reached : session.Reached calls)
    (mem : call ∈ calls) (run : expand call session = .ok expansion after) :
    (∃ performed : Performed, performed.Expands call session expansion after) ∧
      ∀ performed : Performed, performed.Expands call session expansion after →
        performed.Spelled := by
  refine ⟨exists_performed run, ?_⟩
  rintro performed ⟨rfl, rfl, -, -, -⟩
  obtain ⟨sound, callsSound⟩ := reached.sound
  exact performed.spelled sound (callsSound _ mem)

/-! ## A call that is named by an argument -/

/-- A macro hands a name that it binds to another one, whose body refers to the name and calls
the macro of that name with it. -/
def namedByArgument : String :=
  "macro k \x7b ($y:ident) => \x7b 5 \x7d \x7d " ++
    "macro d \x7b ($x:ident) => \x7b let t = $x; $x($x); \x7d \x7d " ++
      "macro m \x7b () => \x7b let k = 1; d(k); \x7d \x7d m();"

namespace Performed

variable {performed : Performed} {index : Nat}

/-- A token whose text is in no template of the macro was substituted. -/
theorem origin_of_absent (read : index < performed.final.cursor.index)
    (absent : ∀ rule ∈ performed.definition.rules, ∀ token ∈ rule.template,
      token.text ≠ (performed.tokens index).text) :
    performed.origin? index = some .invocation := by
  obtain ⟨origin, origin_eq, placed⟩ := performed.placed_of_lt read
  cases origin with
  | invocation => exact origin_eq
  | body =>
    have written : performed.tokens index ∈ performed.rule.template :=
      performed.placedFrom _ placed
    exact absurd rfl (absent _ performed.matched_spec.2.1 _ written)

/-- A name whose text is not among the arguments belongs to the body. -/
theorem origin_of_not_captured (read : index < performed.final.cursor.index)
    (isName : (performed.tokens index).isName = true)
    (absent : ∀ token ∈ performed.call.tokens, token.text ≠ (performed.tokens index).text) :
    performed.origin? index = some .body := by
  obtain ⟨origin, origin_eq, -⟩ := performed.placed_of_lt read
  cases origin with
  | body => exact origin_eq
  | invocation =>
    obtain ⟨token, mem, newline, token_eq⟩ := exists_captures read isName origin_eq
    exact absurd (congrArg Token.text token_eq).symm (absent token mem)

/-- An expansion that binds a name of its body, and uses an argument with a color as a variable,
as the name of a call and as the argument of that call. -/
def NamesCall (performed : Performed) : Prop :=
  (∀ token ∈ performed.call.tokens, token.color = some 1) ∧
    ∃ bound used called nested token,
      performed.places =
          [(bound, .binding { name := "t_2", span := ⟨62, 63, 1, 62⟩, sourceName := some "t" }),
            (used, .reference
              { name := "k_1", span := ⟨113, 114, 1, 113⟩, sourceName := some "k" }),
            (called, .call nested)] ∧
        performed.origin? bound = some .body ∧ performed.origin? used = some .invocation ∧
          performed.origin? called = some .invocation ∧ nested.name.name = "k" ∧
            nested.tokens = [token] ∧ token.isName = true ∧ token.color = some 1 ∧
              performed.origin? (called + 2 + 0) = some .invocation

end Performed

theorem exists_namesCall :
    ∃ session calls call expansion after, Session.Reached session calls ∧ call ∈ calls ∧
      expand call session = .ok expansion after ∧
        ∀ performed : Performed, performed.Expands call session expansion after →
          performed.NamesCall := by
  let own : Identifier := { name := "t_2", span := ⟨62, 63, 1, 62⟩, sourceName := some "t" }
  let place : Span := ⟨113, 114, 1, 113⟩
  let given : Identifier := { name := "k_1", span := place, sourceName := some "k" }
  let token : Token :=
    { kind := .name, text := "k", span := place, newlineBefore := false, color := some 1 }
  let nested : Invocation :=
    { name := { name := "k", span := place }, macroId := 0, tokens := [token],
      scopes := [2, 0], span := ⟨113, 113, 1, 113⟩ }
  let leaves : List Leaf := [.binding own, .reference given, .call nested]
  have passed : endsWith (fun program => firstEndsWith (fun _ outer session =>
      firstEndsWith (fun call expansion _ =>
        Leaf.ofProgram expansion.program == leaves && call.tokens.all (·.color == some 1) &&
          call.tokens.all (·.text != "t") &&
            (session.macros.get? call.macroId).all fun definition =>
              definition.rules.all fun rule => rule.template.all (·.text != "k"))
        expand (Leaf.calls (Leaf.ofProgram outer.program)) session)
      expand (Leaf.calls (Leaf.ofProgram program)))
      (Session.readProgram namedByArgument {}) = true := by
    decide +kernel
  obtain ⟨program, first, readRun, firstPassed⟩ := exists_ok_of_endsWith passed
  obtain ⟨outerCall, rest, outer, session, calls_eq, outerRun, secondPassed⟩ :=
    exists_ok_of_firstEndsWith firstPassed
  obtain ⟨call, others, expansion, after, inner_eq, run, holds⟩ :=
    exists_ok_of_firstEndsWith secondPassed
  have reached := (Session.Reached.start.read readRun).expand (by simp [calls_eq]) outerRun
  have mem : call ∈ Leaf.calls (Leaf.ofProgram outer.program) := by simp [inner_eq]
  simp only [Bool.and_eq_true, List.all_eq_true, beq_iff_eq, Option.all_eq_true, bne_iff_ne]
    at holds
  obtain ⟨⟨⟨leaves_eq, colored⟩, notCaptured⟩, notWritten⟩ := holds
  refine ⟨session, _, call, expansion, after, reached, List.mem_append_left _ mem, run, ?_⟩
  rintro performed ⟨rfl, rfl, program_eq, -, -⟩
  have absent := notWritten _ performed.known
  have seen := performed.leaves
  rw [program_eq, leaves_eq] at seen
  obtain ⟨⟨bound, _⟩, _, places_eq, rfl, rest⟩ := List.map_eq_cons_iff.mp seen.symm
  simp only [List.map_eq_cons_iff, List.map_eq_nil_iff] at rest
  obtain ⟨⟨used, _⟩, _, rfl, rfl, ⟨called, _⟩, _, rfl, rfl, rfl⟩ := rest
  have boundMade := performed.madeOf (bound, .binding own) (by simp [places_eq])
  have usedMade := performed.madeOf (used, .reference given) (by simp [places_eq])
  have calledMem : (called, Leaf.call nested) ∈ performed.places := by simp [places_eq]
  refine ⟨colored, bound, used, called, nested, token, places_eq, ?_, ?_, ?_, rfl, rfl, rfl, rfl,
    ?_⟩
  · obtain ⟨read, isName, color, spelled⟩ := boundMade.of_binding
    have text : "t" = (performed.tokens bound).text :=
      (congrArg Identifier.originalName spelled).trans (Token.originalName_applyColor? _ _)
    exact Performed.origin_of_not_captured read isName (text ▸ notCaptured)
  · obtain ⟨read, -, color, spelled⟩ := usedMade.of_reference
    have text : "k" = (performed.tokens used).text :=
      (congrArg Identifier.originalName spelled).trans (Token.originalName_applyColor? _ _)
    exact Performed.origin_of_absent read (text ▸ absent)
  · have read := ((performed.walk.ordered Session.ready_reader).2 _ calledMem).2
    have named := (performed.walk.name_of_call Session.ready_reader rfl calledMem).1
    have text : "k" = (performed.tokens called).text := congrArg Identifier.name named
    exact Performed.origin_of_absent read (text ▸ absent)
  · cases performed.madeOf _ calledMem with
    | call arguments =>
      obtain ⟨made, -, read⟩ := arguments 0 token rfl
      have text : "k" = (performed.tokens (called + 2 + 0)).text := congrArg Token.text made
      exact Performed.origin_of_absent read (text ▸ absent)

/-- The names of such an expansion are spelled as the origins of their tokens say. -/
theorem namesCall_spelled :
    ∃ session calls call expansion after, Session.Reached session calls ∧ call ∈ calls ∧
      expand call session = .ok expansion after ∧
        ∃ performed : Performed, performed.Expands call session expansion after ∧
          performed.NamesCall ∧ performed.Spelled := by
  obtain ⟨session, calls, call, expansion, after, reached, mem, run, shown⟩ := exists_namesCall
  obtain ⟨⟨performed, expands⟩, spelled⟩ := expand_spells_names reached mem run
  exact ⟨session, calls, call, expansion, after, reached, mem, run, performed, expands,
    shown performed expands, spelled performed expands⟩

/-- A call may be named by a token of the arguments that carries a color, and its name does not
show the color. -/
theorem namesCall_uncolored :
    ∃ session calls call expansion after, Session.Reached session calls ∧ call ∈ calls ∧
      expand call session = .ok expansion after ∧
        ∃ performed : Performed, performed.Expands call session expansion after ∧
          ∃ index nested token, (index, Leaf.call nested) ∈ performed.places ∧
            performed.origin? index = some .invocation ∧ performed.Captures index token ∧
              token.color = some 1 ∧ nested.name.name = "k" ∧
                nested.name ≠ token.colored token.color := by
  obtain ⟨session, calls, call, expansion, after, reached, mem, run, shown⟩ := exists_namesCall
  obtain ⟨performed, expands⟩ := exists_performed run
  obtain ⟨colored, bound, used, called, nested, -, places_eq, -, -, invocation, name_eq, -⟩ :=
    shown performed expands
  have calledMem : (called, Leaf.call nested) ∈ performed.places := by simp [places_eq]
  have read := ((performed.walk.ordered Session.ready_reader).2 _ calledMem).2
  obtain ⟨named, isName⟩ := performed.walk.name_of_call Session.ready_reader rfl calledMem
  obtain ⟨token, captures⟩ := Performed.exists_captures read isName invocation
  have color_eq := colored token captures.1
  refine ⟨session, calls, call, expansion, after, reached, mem, run, performed, expands,
    called, nested, token, calledMem, invocation, captures, color_eq, name_eq, ?_⟩
  intro same
  have plain : nested.name.sourceName = none := congrArg Identifier.sourceName named
  rw [same, color_eq] at plain
  cases plain

end MacroScript
