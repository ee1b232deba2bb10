import MacroScript.Proofs.Outcome
import MacroScript.Proofs.Reading.Follows

/-!
# Reading names

What it means to bind and to look up a name, case by case: outside of an expansion,
for a name of the body and for a name of the arguments.  A name that was bound can
always be looked up, so reading a binding fails only before it changes the context.
-/

namespace MacroScript

@[simp]
theorem Cursor.tokenAt_advance (cursor : Cursor) (index : Nat) :
    cursor.advance.tokenAt index = cursor.tokenAt index := by
  unfold advance
  split <;> rfl

namespace Grammar

variable {reader : Reader}

namespace Context

variable {context bound : Context} {cursor other : Cursor} {index : Nat} {name : String}
  {hygiene : Hygiene}

/-! ## Looking up a name -/

theorem tokenColor_of_plain (plain : context.hygiene = none) :
    context.tokenColor cursor index name = .ok none := by
  simp only [tokenColor, plain]

theorem tokenColor_of_body (hygienic : context.hygiene = some hygiene)
    (body : hygiene.origins[index]? = some .body) :
    context.tokenColor cursor index name =
      .ok (context.session.scopes.findColor? hygiene.declarationScopes name) := by
  simp only [tokenColor, hygienic, Hygiene.origin, body]
  rfl

theorem tokenColor_of_invocation (hygienic : context.hygiene = some hygiene)
    (invocation : hygiene.origins[index]? = some .invocation) :
    context.tokenColor cursor index name = .ok (cursor.tokenAt index).color := by
  simp only [tokenColor, hygienic, Hygiene.origin, invocation]
  rfl

/-- The three ways of coloring a name. -/
inductive Colors (context : Context) (token : Token) (index : Nat) (name : String) :
    Option Color → Prop
  | plain (plain : context.hygiene = none) : Colors context token index name none
  | body {hygiene : Hygiene} (hygienic : context.hygiene = some hygiene)
      (body : hygiene.origins[index]? = some .body) :
      Colors context token index name
        (context.session.scopes.findColor? hygiene.declarationScopes name)
  | invocation {hygiene : Hygiene} (hygienic : context.hygiene = some hygiene)
      (invocation : hygiene.origins[index]? = some .invocation) :
      Colors context token index name token.color

theorem colors_of_tokenColor {color : Option Color}
    (colored : context.tokenColor cursor index name = .ok color) :
    Colors context (cursor.tokenAt index) index name color := by
  cases hygienic : context.hygiene with
  | none =>
    rw [tokenColor_of_plain hygienic, Except.ok.injEq] at colored
    exact colored ▸ .plain hygienic
  | some hygiene =>
    cases traced : hygiene.origins[index]? with
    | none =>
      simp only [tokenColor, hygienic, Hygiene.origin, traced] at colored
      cases colored
    | some origin =>
      cases origin with
      | body =>
        rw [tokenColor_of_body hygienic traced, Except.ok.injEq] at colored
        exact colored ▸ .body hygienic traced
      | invocation =>
        rw [tokenColor_of_invocation hygienic traced, Except.ok.injEq] at colored
        exact colored ▸ .invocation hygienic traced

/-- A macro that is found is found in the scopes of the parser or in those where its name stems
from. -/
theorem exists_of_findMacro? {macroId : MacroId}
    (found : context.findMacro? index name = .ok (some macroId)) :
    ∃ stack, context.session.scopes.findMacro? stack name = some macroId ∧
      (stack = context.scopes ∨
        ∃ hygiene origin, context.hygiene = some hygiene ∧ stack = hygiene.scopes origin) := by
  unfold findMacro? at found
  split at found
  · exact ⟨_, Except.ok.inj found, .inl rfl⟩
  · rename_i hygiene hygienic
    obtain ⟨origin, -, either⟩ := Outcome.except_bind_eq_ok_iff.mp found
    have either := Except.ok.inj either
    rw [Option.orElse_eq_orElse, Option.orElse_eq_or, Option.or_eq_some_iff] at either
    rcases either with own | ⟨-, other⟩
    · exact ⟨_, own, .inr ⟨hygiene, origin, hygienic, rfl⟩⟩
    · exact ⟨_, other, .inl rfl⟩

/-- The color of a token depends on the cursor through that token only. -/
theorem tokenColor_congr (same : other.tokenAt index = cursor.tokenAt index) :
    context.tokenColor other index name = context.tokenColor cursor index name := by
  simp only [tokenColor, same]

/-! ## Binding a name -/

/-- The context after a name of the body was bound. -/
def bindBody (context : Context) (hygiene : Hygiene) (name : String) : Context :=
  { context with
    session := (context.session.claimColor hygiene).2.2
    hygiene := some (context.session.claimColor hygiene).2.1 }.mark hygiene.declarationScopes name
      (some (context.session.claimColor hygiene).1)

theorem bindName_of_plain (plain : context.hygiene = none) :
    context.bindName cursor index name = .ok (context.mark context.scopes name none) := by
  simp only [bindName, plain]

theorem bindName_of_body (hygienic : context.hygiene = some hygiene)
    (body : hygiene.origins[index]? = some .body) :
    context.bindName cursor index name = .ok (context.bindBody hygiene name) := by
  simp only [bindName, hygienic, Hygiene.origin, body]
  rfl

theorem bindName_of_invocation (hygienic : context.hygiene = some hygiene)
    (invocation : hygiene.origins[index]? = some .invocation) :
    context.bindName cursor index name =
      .ok (context.mark hygiene.invocationScopes name (cursor.tokenAt index).color) := by
  simp only [bindName, hygienic, Hygiene.origin, invocation]
  rfl

theorem bindName_congr (same : other.tokenAt index = cursor.tokenAt index) :
    context.bindName other index name = context.bindName cursor index name := by
  simp only [bindName, same]

/-- The three ways of binding a name. -/
inductive Binds (context : Context) (token : Token) (index : Nat) (name : String) :
    Context → Prop
  | plain (plain : context.hygiene = none) :
      Binds context token index name (context.mark context.scopes name none)
  | body {hygiene : Hygiene} (hygienic : context.hygiene = some hygiene)
      (body : hygiene.origins[index]? = some .body) :
      Binds context token index name (context.bindBody hygiene name)
  | invocation {hygiene : Hygiene} (hygienic : context.hygiene = some hygiene)
      (invocation : hygiene.origins[index]? = some .invocation) :
      Binds context token index name
        (context.mark hygiene.invocationScopes name token.color)

theorem binds_of_bindName (binds : context.bindName cursor index name = .ok bound) :
    Binds context (cursor.tokenAt index) index name bound := by
  cases hygienic : context.hygiene with
  | none =>
    rw [bindName_of_plain hygienic, Except.ok.injEq] at binds
    exact binds ▸ .plain hygienic
  | some hygiene =>
    cases traced : hygiene.origins[index]? with
    | none =>
      simp only [bindName, hygienic, Hygiene.origin, traced] at binds
      cases binds
    | some origin =>
      cases origin with
      | body =>
        rw [bindName_of_body hygienic traced, Except.ok.injEq] at binds
        exact binds ▸ .body hygienic traced
      | invocation =>
        rw [bindName_of_invocation hygienic traced, Except.ok.injEq] at binds
        exact binds ▸ .invocation hygienic traced

/-! ## Fields of a changed context -/

@[simp]
theorem mark_hygiene (context : Context) (stack : ScopeStack) (name : String)
    (color : Option Color) : (context.mark stack name color).hygiene = context.hygiene := by
  cases stack <;> rfl

@[simp]
theorem mark_macros (context : Context) (stack : ScopeStack) (name : String)
    (color : Option Color) :
    (context.mark stack name color).session.macros = context.session.macros := by
  cases stack <;> rfl

@[simp]
theorem bindBody_hygiene (context : Context) (hygiene : Hygiene) (name : String) :
    (context.bindBody hygiene name).hygiene =
      some { hygiene with color := some (context.session.claimColor hygiene).1 } := by
  rcases hygiene with ⟨origins, declarationScopes, invocationScopes, color⟩
  simp only [bindBody, mark_hygiene]
  cases color <;> rfl

/-- A name that was bound can be looked up. -/
theorem exists_tokenColor_of_bindName
    (binds : context.bindName cursor index name = .ok bound) :
    ∃ color, bound.tokenColor cursor index name = .ok color := by
  cases binds_of_bindName binds with
  | plain plain => exact ⟨_, tokenColor_of_plain (by rw [mark_hygiene, plain])⟩
  | body hygienic body =>
    exact ⟨_, tokenColor_of_body (bindBody_hygiene context _ name) body⟩
  | invocation hygienic invocation =>
    exact ⟨_, tokenColor_of_invocation (by rw [mark_hygiene, hygienic]) invocation⟩

end Context

/-! ## Names of traced tokens -/

namespace Reader.Traced

variable {next : Cursor} {context : Context} {index : Nat} {tokens : List Token}
variable (traced : Traced ⟨next, context⟩)
include traced

/-- There is an origin for every token. -/
theorem origin {hygiene : Hygiene} (hygienic : context.hygiene = some hygiene)
    (inside : index < next.tokens.size) : ∃ origin, hygiene.origins[index]? = some origin :=
  ⟨_, Array.getElem?_eq_getElem (Nat.lt_of_lt_of_le inside (traced hygiene hygienic))⟩

theorem tokenColor (inside : index < next.tokens.size) (cursor : Cursor) (name : String) :
    ∃ color, context.tokenColor cursor index name = .ok color := by
  cases hygienic : context.hygiene with
  | none => exact ⟨_, Context.tokenColor_of_plain hygienic⟩
  | some hygiene =>
    obtain ⟨origin, traced⟩ := traced.origin hygienic inside
    cases origin with
    | body => exact ⟨_, Context.tokenColor_of_body hygienic traced⟩
    | invocation => exact ⟨_, Context.tokenColor_of_invocation hygienic traced⟩

theorem bindName (inside : index < next.tokens.size) (cursor : Cursor) (name : String) :
    ∃ bound, context.bindName cursor index name = .ok bound := by
  cases hygienic : context.hygiene with
  | none => exact ⟨_, Context.bindName_of_plain hygienic⟩
  | some hygiene =>
    obtain ⟨origin, traced⟩ := traced.origin hygienic inside
    cases origin with
    | body => exact ⟨_, Context.bindName_of_body hygienic traced⟩
    | invocation => exact ⟨_, Context.bindName_of_invocation hygienic traced⟩

theorem findMacro? (inside : index < next.tokens.size) (name : String) :
    ∃ found, context.findMacro? index name = .ok found := by
  cases hygienic : context.hygiene with
  | none =>
    simp only [Context.findMacro?, hygienic]
    exact ⟨_, rfl⟩
  | some hygiene =>
    obtain ⟨origin, traced⟩ := traced.origin hygienic inside
    simp only [Context.findMacro?, hygienic, Hygiene.origin, traced]
    exact ⟨_, rfl⟩

/-- The names among tokens that were captured have colors. -/
theorem fixColors (cursor : Cursor) {index : Nat}
    (inside : index + tokens.length ≤ next.tokens.size) :
    ∃ fixed, context.fixColors cursor index tokens = .ok fixed := by
  induction tokens generalizing index with
  | nil => exact ⟨_, rfl⟩
  | cons token rest ih =>
    rw [List.length_cons] at inside
    obtain ⟨later, laterRun⟩ := ih (show index + 1 + rest.length ≤ _ by omega)
    obtain ⟨color, colored⟩ := traced.tokenColor (show index < _ by omega) cursor token.text
    unfold Context.fixColors
    rw [colored, laterRun]
    split
    · exact ⟨_, rfl⟩
    · exact ⟨_, rfl⟩

theorem captureColors (cursor : Cursor) (inside : index + tokens.length ≤ next.tokens.size) :
    ∃ fixed, context.captureColors cursor index tokens = .ok fixed := by
  cases hygienic : context.hygiene with
  | none => exact ⟨tokens, by simp only [Context.captureColors, hygienic]⟩
  | some hygiene =>
    obtain ⟨fixed, run⟩ := traced.fixColors cursor inside
    exact ⟨fixed, by simp only [Context.captureColors, hygienic, run]⟩

end Reader.Traced

/-! ## Reading -/

theorem declareName_state (reader : Reader) (identifier : Identifier) (index : Nat) :
    declareName identifier index reader.state =
      match reader.context.bindName reader.cursor index identifier.name with
      | .error fault => .error fault reader.state
      | .ok bound =>
        match bound.tokenColor reader.cursor index identifier.name with
        | .error fault => .error fault (Reader.mk reader.cursor bound).state
        | .ok color =>
          .ok (identifier.applyColor? color) (Reader.mk reader.cursor bound).state := by
  unfold declareName withContext resolveName withContext
  simp only [bind, EStateM.bind, Reader.state]
  cases reader.context.bindName reader.cursor index identifier.name with
  | error fault => rfl
  | ok bound =>
    simp only [Except.map, Outcome.modify_run, Option.orElse_eq_orElse, Option.orElse]
    cases bound.tokenColor reader.cursor index identifier.name with
    | error fault
    | ok color => rfl

theorem resolveName_state (reader : Reader) (identifier : Identifier) (index : Nat) :
    resolveName identifier index reader.state =
      match reader.context.tokenColor reader.cursor index identifier.name with
      | .error fault => .error fault reader.state
      | .ok color => .ok (identifier.applyColor? color) reader.state := by
  unfold resolveName withContext
  simp only [bind, EStateM.bind, Reader.state]
  cases reader.context.tokenColor reader.cursor index identifier.name with
  | error fault
  | ok color => rfl

/-- Reading a name succeeds exactly on name tokens. -/
theorem expectName_bind {α : Type} (next : Identifier → Parser α) (state : State) :
    (expectName >>= next) state =
      if state.cursor.peek.isName then
        next state.cursor.peek.identifier { state with cursor := state.cursor.advance }
      else
        .error (.unexpected state.cursor.peek) state := by
  cases isName : state.cursor.peek.isName <;>
    simp [expectName, peek, advance, unexpected, bind, EStateM.bind, pure, EStateM.pure,
      Token.identifier, isName]

theorem bindingName_eq (state : State) :
    bindingName state =
      if state.cursor.peek.isName then
        declareName state.cursor.peek.identifier state.cursor.index
          { state with cursor := state.cursor.advance }
      else
        .error (.unexpected state.cursor.peek) state :=
  expectName_bind (declareName · state.cursor.index) state

theorem referenceName_eq (state : State) :
    referenceName state =
      if state.cursor.peek.isName then
        resolveName state.cursor.peek.identifier state.cursor.index
          { state with cursor := state.cursor.advance }
      else
        .error (.unexpected state.cursor.peek) state :=
  expectName_bind (resolveName · state.cursor.index) state

/-- A name that introduces a binding is bound where it stands and then looked up. -/
theorem bindingName_state (reader : Reader) :
    bindingName reader.state =
      if reader.cursor.peek.isName then
        match reader.context.bindName reader.cursor reader.cursor.index
            reader.cursor.peek.text with
        | .error fault => .error fault (Reader.mk reader.cursor.advance reader.context).state
        | .ok bound =>
          match bound.tokenColor reader.cursor reader.cursor.index reader.cursor.peek.text with
          | .error fault => .error fault (Reader.mk reader.cursor.advance bound).state
          | .ok color =>
            .ok (reader.cursor.peek.identifier.applyColor? color)
              (Reader.mk reader.cursor.advance bound).state
      else
        .error (.unexpected reader.cursor.peek) reader.state := by
  have same := reader.cursor.tokenAt_advance reader.cursor.index
  have declared := declareName_state ⟨reader.cursor.advance, reader.context⟩
    reader.cursor.peek.identifier reader.cursor.index
  simp only [Context.bindName_congr same, Context.tokenColor_congr same] at declared
  rw [bindingName_eq]
  exact if_congr Iff.rfl declared rfl

/-- A name that refers to a binding is looked up where it stands. -/
theorem referenceName_state (reader : Reader) :
    referenceName reader.state =
      if reader.cursor.peek.isName then
        match reader.context.tokenColor reader.cursor reader.cursor.index
            reader.cursor.peek.text with
        | .error fault => .error fault (Reader.mk reader.cursor.advance reader.context).state
        | .ok color =>
          .ok (reader.cursor.peek.identifier.applyColor? color)
            (Reader.mk reader.cursor.advance reader.context).state
      else
        .error (.unexpected reader.cursor.peek) reader.state := by
  have same := reader.cursor.tokenAt_advance reader.cursor.index
  have resolved := resolveName_state ⟨reader.cursor.advance, reader.context⟩
    reader.cursor.peek.identifier reader.cursor.index
  simp only [Context.tokenColor_congr same] at resolved
  rw [referenceName_eq]
  exact if_congr Iff.rfl resolved rfl

theorem stepped_bindingName (ready : reader.cursor.Ready) :
    Stepped reader (fun identifier => [.binding identifier]) (bindingName reader.state) := by
  rw [bindingName_state]
  by_cases isName : reader.cursor.peek.isName = true
  · have inside := ready.forward_advance.tokens ▸ ready.lt_of_isName isName
    simp only [isName, if_true]
    cases binds : reader.context.bindName reader.cursor reader.cursor.index
        reader.cursor.peek.text with
    | error fault =>
      refine ⟨_, rfl, .move ready.forward_advance, fun traced => ?_⟩
      obtain ⟨bound, bindsToo⟩ := traced.bindName inside reader.cursor reader.cursor.peek.text
      cases binds.symm.trans bindsToo
    | ok bound =>
      obtain ⟨color, colored⟩ := Context.exists_tokenColor_of_bindName binds
      simp only [colored]
      exact ⟨_, _, rfl, .binding isName binds colored, rfl⟩
  · simp only [isName]
    exact ⟨reader, rfl, .move (.refl ready), fun _ => rfl⟩

theorem yields_bindingName : Yields bindingName fun identifier => [.binding identifier] :=
  fun _ ready => (stepped_bindingName ready).walked

theorem stepped_referenceName (ready : reader.cursor.Ready) :
    Stepped reader (fun identifier => [.reference identifier]) (referenceName reader.state) := by
  rw [referenceName_state]
  by_cases isName : reader.cursor.peek.isName = true
  · have inside := ready.forward_advance.tokens ▸ ready.lt_of_isName isName
    simp only [isName, if_true]
    cases colored : reader.context.tokenColor reader.cursor reader.cursor.index
        reader.cursor.peek.text with
    | error fault =>
      refine ⟨_, rfl, .move ready.forward_advance, fun traced => ?_⟩
      obtain ⟨color, coloredToo⟩ := traced.tokenColor inside reader.cursor reader.cursor.peek.text
      cases colored.symm.trans coloredToo
    | ok color => exact ⟨_, _, rfl, .reference isName colored, rfl⟩
  · simp only [isName]
    exact ⟨reader, rfl, .move (.refl ready), fun _ => rfl⟩

theorem yields_referenceName :
    Yields referenceName fun identifier => [.reference identifier] :=
  fun _ ready => (stepped_referenceName ready).walked

end Grammar

end MacroScript
